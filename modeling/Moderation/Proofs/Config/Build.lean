import Mathlib.Data.List.Induction
import Mathlib.Tactic.Common
import Moderation.Config
import Moderation.Proofs.Table

/-!
# What registrations build

The two loops of the builder stop at the first registration that has a flaw. If none has, they
amount to insertions, and what is found afterwards is read off the registrations.
-/

namespace Moderation.Config

namespace Registration

def mode? : Registration → Option ClaimMode
  | .mode given => some given
  | _ => none

def mapping? : Registration → Option (String × String)
  | .form action name => some (action, name)
  | _ => none

def parameter? : Registration → Option (String × String)
  | .parameter kind name => some (kind, name)
  | _ => none

end Registration

/-- Registrations are collected, and of the modes the last one counts. -/
theorem foldl_register (registrations : List Registration) (b : Builder) :
    registrations.foldl Builder.register b =
      ⟨(registrations.filterMap Registration.mode?).getLast?.getD b.mode,
        b.mappings ++ registrations.filterMap Registration.mapping?,
        b.parameters ++ registrations.filterMap Registration.parameter?⟩ := by
  induction registrations generalizing b with
  | nil => simp
  | cons registration rest ih =>
    rw [List.foldl_cons, ih]
    cases registration with
    | mode given =>
      simp [Builder.register, List.filterMap_cons, Registration.mode?, Registration.mapping?,
        Registration.parameter?, List.getLast?_cons]
    | form | parameter =>
      simp [Builder.register, List.filterMap_cons, Registration.mode?, Registration.mapping?,
        Registration.parameter?]

theorem ofRegistrations_eq (registrations : List Registration) :
    ofRegistrations registrations =
      build ((registrations.filterMap Registration.mode?).getLast?.getD .optional)
        (registrations.filterMap Registration.mapping?)
        (registrations.filterMap Registration.parameter?) := by
  unfold ofRegistrations Builder.build
  rw [foldl_register]
  rfl

/-- What is wrong with a mapping. That a name is missing comes first. -/
def mappingFlaw? : String × String → Option Problem
  | (action, form) =>
    if action = "" ∨ form = "" then some .incompleteMapping
    else (builtin.lookup action).map (.reserved action)

def parameterFlaw? : String × String → Option Problem
  | (kind, name) => if name = "" then some (.emptyParameter kind) else none

theorem mappingFlaw?_eq_none_iff {mapping : String × String} :
    mappingFlaw? mapping = none ↔
      mapping.1 ≠ "" ∧ mapping.2 ≠ "" ∧ builtin.lookup mapping.1 = none := by
  obtain ⟨action, form⟩ := mapping
  by_cases hempty : action = "" ∨ form = ""
  · simp only [mappingFlaw?, hempty, if_true, reduceCtorEq, false_iff]
    tauto
  · rw [mappingFlaw?, if_neg hempty, Option.map_eq_none_iff]
    tauto

theorem parameterFlaw?_eq_none_iff {parameter : String × String} :
    parameterFlaw? parameter = none ↔ parameter.2 ≠ "" := by
  simp [parameterFlaw?]

/-- The names of a kind with one more, unless it is there. -/
def withName (names : List String) (name : String) : List String :=
  if name ∈ names then names else names ++ [name]

def insertParameter (table : Std.ExtTreeMap String (List String)) (parameter : String × String) :
    Std.ExtTreeMap String (List String) :=
  table.insert parameter.1 (withName (table[parameter.1]?.getD []) parameter.2)

theorem addForm_eq (forms : Std.ExtTreeMap String String) (mapping : String × String) :
    addForm forms mapping =
      (mappingFlaw? mapping).elim (.ok (forms.insert mapping.1 mapping.2)) .error := by
  obtain ⟨action, form⟩ := mapping
  by_cases hempty : action = "" ∨ form = ""
  · simp [addForm, mappingFlaw?, hempty]
  · by_cases haction : action = reviseAndRejectPost
    · simp_all [addForm, mappingFlaw?, builtin]
    · simp_all [addForm, mappingFlaw?, builtin, Ne.symm haction]

theorem addParameter_eq (table : Std.ExtTreeMap String (List String))
    (parameter : String × String) :
    addParameter table parameter =
      (parameterFlaw? parameter).elim (.ok (insertParameter table parameter)) .error := by
  obtain ⟨kind, name⟩ := parameter
  by_cases hempty : name = "" <;>
    simp [addParameter, parameterFlaw?, insertParameter, withName, hempty]

/-- A loop that refuses what has a flaw refuses the first of them, and else puts all. -/
theorem foldlM_checked {α β ε : Type} {flaw? : α → Option ε} {put : β → α → β}
    {add : β → α → Except ε β}
    (hadd : ∀ b a, add b a = (flaw? a).elim (.ok (put b a)) .error) (b : β) (as : List α) :
    as.foldlM add b = (as.findSome? flaw?).elim (.ok (as.foldl put b)) .error := by
  induction as generalizing b with
  | nil => rfl
  | cons a rest ih =>
    rw [List.foldlM_cons, List.findSome?_cons, hadd]
    cases flaw? a with
    | some problem => rfl
    | none => exact ih (put b a)

/-- The first flaw is reported, mappings before parameters. -/
theorem build_eq (mode : ClaimMode) (mappings parameters : List (String × String)) :
    build mode mappings parameters =
      ((mappings.findSome? mappingFlaw?).or (parameters.findSome? parameterFlaw?)).elim
        (.ok ⟨mode, Table.insertAll (.ofList builtin) mappings,
          parameters.foldl insertParameter ∅⟩) .error := by
  unfold build
  rw [foldlM_checked addForm_eq, foldlM_checked addParameter_eq]
  cases mappings.findSome? mappingFlaw? with
  | some problem => rfl
  | none => cases parameters.findSome? parameterFlaw? <;> rfl

theorem build_eq_error_iff {mode : ClaimMode} {mappings parameters : List (String × String)}
    {problem : Problem} :
    build mode mappings parameters = .error problem ↔
      (mappings.findSome? mappingFlaw?).or (parameters.findSome? parameterFlaw?) =
        some problem := by
  rw [build_eq]
  cases (mappings.findSome? mappingFlaw?).or (parameters.findSome? parameterFlaw?) <;> simp

/-- Without a flaw there is a configuration, and only then. -/
theorem build_eq_ok_iff {mode : ClaimMode} {mappings parameters : List (String × String)}
    {config : Config} :
    build mode mappings parameters = .ok config ↔
      (∀ m ∈ mappings, mappingFlaw? m = none) ∧ (∀ p ∈ parameters, parameterFlaw? p = none) ∧
      ⟨mode, Table.insertAll (.ofList builtin) mappings,
        parameters.foldl insertParameter ∅⟩ = config := by
  have hnone : (mappings.findSome? mappingFlaw?).or (parameters.findSome? parameterFlaw?) = none ↔
      (∀ m ∈ mappings, mappingFlaw? m = none) ∧ ∀ p ∈ parameters, parameterFlaw? p = none := by
    rw [Option.or_eq_none_iff, List.findSome?_eq_none_iff, List.findSome?_eq_none_iff]
  rw [← and_assoc, ← hnone, build_eq]
  cases (mappings.findSome? mappingFlaw?).or (parameters.findSome? parameterFlaw?) <;> simp

/-- The names that parameters give for a kind. -/
def namesFor (parameters : List (String × String)) (kind : String) : List String :=
  (parameters.filter (·.1 = kind)).map (·.2)

theorem eraseDups_concat (names : List String) (name : String) :
    (names ++ [name]).eraseDups = withName names.eraseDups name := by
  rw [List.eraseDups_append, withName]
  by_cases hmem : name ∈ names <;> simp [List.removeAll, List.eraseDups_cons, hmem]

/-- Each kind gets its parameters, in the order of their first registration. -/
theorem getElem?_foldl_insertParameter (parameters : List (String × String)) (kind : String) :
    (parameters.foldl insertParameter ∅)[kind]? =
      if namesFor parameters kind = [] then none else some (namesFor parameters kind).eraseDups := by
  induction parameters using List.reverseRecOn with
  | nil => exact Std.ExtTreeMap.getElem?_empty
  | append_singleton before parameter ih =>
    obtain ⟨other, name⟩ := parameter
    have hknown : (before.foldl insertParameter ∅)[kind]?.getD [] =
        (namesFor before kind).eraseDups := by
      rw [ih]
      split
      · rename_i hnil
        rw [hnil]; rfl
      · rfl
    rw [List.foldl_append, List.foldl_cons, List.foldl_nil, insertParameter,
      Std.ExtTreeMap.getElem?_insert]
    by_cases hkind : other = kind
    · subst other
      have hnames : namesFor (before ++ [(kind, name)]) kind = namesFor before kind ++ [name] := by
        simp [namesFor]
      simp [hnames, eraseDups_concat, hknown]
    · have hnames : namesFor (before ++ [(other, name)]) kind = namesFor before kind := by
        simp [namesFor, hkind]
      simp [hnames, hkind, ih]

/-! ## The outcome -/

/-- A mapping that may be registered leaves the built-in ones alone. -/
theorem lookup_of_flawless {mappings : List (String × String)}
    (hmappings : ∀ m ∈ mappings, mappingFlaw? m = none) (action : String) :
    (mappings.reverse.lookup action).or (builtin.lookup action) =
      (builtin.lookup action).or (mappings.reverse.lookup action) := by
  cases hlookup : mappings.reverse.lookup action with
  | none => simp
  | some form =>
    have hmem : (action, form) ∈ mappings := List.mem_reverse.mp (Table.mem_of_lookup hlookup)
    have hfree := (mappingFlaw?_eq_none_iff.mp (hmappings _ hmem)).2.2
    rw [hfree, Option.or_none, Option.none_or]

theorem getElem?_builtin (action : String) :
    (Std.ExtTreeMap.ofList builtin : Std.ExtTreeMap String String)[action]? =
      builtin.lookup action := by
  rw [Table.ofList_eq, Table.getElem?_insertAll, Std.ExtTreeMap.getElem?_empty, Option.or_none]
  rfl

/-- A configuration is built from what has no flaw. Of the mappings of an action the last counts,
and the parameters of a kind are kept in the order in which they came first. The first mapping with
a flaw is what a refusal tells of, and only if there is none the first parameter with one. -/
theorem ofRegistrations_exact (registrations : List Registration) :
    let mappings := registrations.filterMap Registration.mapping?
    let parameters := registrations.filterMap Registration.parameter?
    ((∃ config, ofRegistrations registrations = .ok config) ↔
      (∀ m ∈ mappings, m.1 ≠ "" ∧ m.2 ≠ "" ∧ builtin.lookup m.1 = none) ∧
      ∀ p ∈ parameters, p.2 ≠ "") ∧
    (∀ problem, ofRegistrations registrations = .error problem ↔
      (mappings.findSome? mappingFlaw?).or (parameters.findSome? parameterFlaw?) =
        some problem) ∧
    ∀ config, ofRegistrations registrations = .ok config →
      config.mode = (registrations.filterMap Registration.mode?).getLast?.getD .optional ∧
      (∀ action, config.formOf? action =
        (builtin.lookup action).or (mappings.reverse.lookup action)) ∧
      ∀ kind, config.parametersOf kind = (namesFor parameters kind).eraseDups := by
  intro mappings parameters
  rw [ofRegistrations_eq]
  refine ⟨?success, fun problem ↦ build_eq_error_iff, ?found⟩
  case success =>
    simp only [build_eq_ok_iff, exists_and_left, exists_eq', and_true]
    apply and_congr
    · exact forall₂_congr fun m _ ↦ mappingFlaw?_eq_none_iff
    · exact forall₂_congr fun p _ ↦ parameterFlaw?_eq_none_iff
  case found =>
    intro config hbuild
    obtain ⟨hmappings, -, rfl⟩ := build_eq_ok_iff.mp hbuild
    refine ⟨rfl, ?_, ?_⟩
    · intro action
      calc
        _ = (mappings.reverse.lookup action).or (builtin.lookup action) := by
          rw [← getElem?_builtin, ← Table.getElem?_insertAll]
          rfl
        _ = _ := lookup_of_flawless hmappings action
    · intro kind
      unfold parametersOf
      rw [getElem?_foldl_insertParameter]
      split
      · rename_i hnone
        exact (congrArg List.eraseDups hnone).symm
      · rfl

/-- The mapping comes later, and is what the refusal tells of. -/
example : ofRegistrations [.parameter "ReviewableUser" "", .form "escalate" ""] =
    .error .incompleteMapping := rfl

theorem ofRegistrations_exact_of_repetitions :
    let registrations : List Registration :=
      [.form "escalate" "first_form", .parameter "ReviewableAkismetPost" "spam_score",
        .parameter "ReviewableUser" "trust_level", .form "escalate" "escalation_form",
        .parameter "ReviewableAkismetPost" "akismet_state",
        .parameter "ReviewableAkismetPost" "spam_score", .mode .required]
    ∃ config, ofRegistrations registrations = .ok config ∧ config.mode = .required ∧
      config.formOf? "escalate" = some "escalation_form" ∧
      config.formOf? reviseAndRejectPost = some reviseAndRejectPost ∧
      config.parametersOf "ReviewableAkismetPost" = ["spam_score", "akismet_state"] := by
  intro registrations
  obtain ⟨hsuccess, -, hfound⟩ := ofRegistrations_exact registrations
  obtain ⟨config, hconfig⟩ := hsuccess.mpr (by decide)
  obtain ⟨hmode, hforms, hparameters⟩ := hfound config hconfig
  refine ⟨config, hconfig, hmode, ?_, ?_, ?_⟩
  · rw [hforms]; rfl
  · rw [hforms]; rfl
  · rw [hparameters]; decide

end Moderation.Config
