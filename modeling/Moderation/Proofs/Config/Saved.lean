import Moderation.Proofs.Config.Build
import Moderation.Proofs.Wire.Config

/-!
# Configurations and their files

A configuration has the built-in mappings, and so has its file. But what a file says is registered,
and the built-in mappings cannot be. So the file of a configuration is refused as it stands, and
gives the configuration again without the built-in mapping.
-/

namespace Moderation.Config

/-- The parameters of a table, kind by kind. -/
def parameterList (table : List (String × List String)) : List (String × String) :=
  table.flatMap fun entry ↦ entry.2.map (entry.1, ·)

theorem ofFile_eq (file : File) :
    ofFile file = build file.mode file.forms.toList (parameterList file.parameters.toList) := by
  have hmode : file.registrations.filterMap Registration.mode? = [file.mode] := by
    simp [File.registrations, Registration.mode?, List.filterMap_append, List.filterMap_map,
      List.filterMap_flatMap, Function.comp_def]
  have hmappings : file.registrations.filterMap Registration.mapping? = file.forms.toList := by
    simp [File.registrations, Registration.mapping?, List.filterMap_cons, List.filterMap_append,
      List.filterMap_map, List.filterMap_flatMap, Function.comp_def]
  have hparameters : file.registrations.filterMap Registration.parameter? =
      parameterList file.parameters.toList := by
    simp [File.registrations, Registration.parameter?, List.filterMap_cons,
      List.filterMap_append, List.filterMap_map, List.filterMap_flatMap, Function.comp_def,
      parameterList]
  rw [ofFile, ofRegistrations_eq, hmode, hmappings, hparameters]
  rfl

theorem namesFor_parameterList {table : List (String × List String)}
    (distinct : (table.map Prod.fst).Nodup) (kind : String) :
    namesFor (parameterList table) kind = (table.lookup kind).getD [] := by
  induction table with
  | nil => rfl
  | cons entry rest ih =>
    obtain ⟨other, names⟩ := entry
    obtain ⟨hfresh, hrest⟩ := List.nodup_cons.mp distinct
    have happend : namesFor (parameterList ((other, names) :: rest)) kind =
        (if other = kind then names else []) ++ namesFor (parameterList rest) kind := by
      by_cases hkind : other = kind <;>
        simp [namesFor, parameterList, List.filter_map, Function.comp_def, hkind]
    rw [happend, ih hrest, List.lookup_cons]
    by_cases hkind : other = kind
    · subst other
      simp [Table.lookup_eq_none hfresh]
    · simp [hkind, beq_eq_false_iff_ne.mpr (Ne.symm hkind)]

theorem mem_parameterList_iff {table : List (String × List String)} {kind name : String} :
    (kind, name) ∈ parameterList table ↔ ∃ names, (kind, names) ∈ table ∧ name ∈ names := by
  simp [parameterList]

/-- Where configurations come from. -/
inductive IsMade : Config → Prop where
  | registered {config : Config} (registrations : List Registration)
      (ok : ofRegistrations registrations = .ok config) : IsMade config
  | loaded {config : Config} (file : File) (ok : ofFile file = .ok config) : IsMade config
  | read {config : Config} (text : String) (ok : ofYaml text = .ok config) : IsMade config

/-- The built-in mapping is there, what else is there may be registered, and there are no
repetitions. -/
structure IsSound (config : Config) : Prop where
  builtin : config.forms[reviseAndRejectPost]? = some reviseAndRejectPost
  forms : ∀ action form : String, action ≠ reviseAndRejectPost →
    config.forms[action]? = some form → mappingFlaw? (action, form) = none
  named : ∀ (kind : String) (names : List String), config.parameters[kind]? = some names →
    names ≠ [] ∧ "" ∉ names
  distinct : ∀ (kind : String) (names : List String), config.parameters[kind]? = some names →
    names.Nodup

theorem lookup_builtin_eq_none_iff {action : String} :
    builtin.lookup action = none ↔ action ≠ reviseAndRejectPost := by
  simp [builtin]

theorem nodup_eraseDups (names : List String) : names.eraseDups.Nodup := by
  induction names using List.reverseRecOn with
  | nil => exact List.nodup_nil
  | append_singleton before name ih =>
    rw [eraseDups_concat, withName]
    split
    · exact ih
    · rename_i hfresh
      rw [← List.concat_eq_append]
      exact ih.concat hfresh

theorem eraseDups_of_nodup {names : List String} (distinct : names.Nodup) :
    names.eraseDups = names := by
  induction names using List.reverseRecOn with
  | nil => rfl
  | append_singleton before name ih =>
    rw [← List.concat_eq_append, List.nodup_concat] at distinct
    rw [eraseDups_concat, ih distinct.2, withName, if_neg distinct.1]

theorem mem_namesFor_iff {parameters : List (String × String)} {kind name : String} :
    name ∈ namesFor parameters kind ↔ (kind, name) ∈ parameters := by
  simp [namesFor]

theorem isSound_of_build {mode : ClaimMode} {mappings parameters : List (String × String)}
    {config : Config} (h : build mode mappings parameters = .ok config) : config.IsSound := by
  obtain ⟨hmappings, hparameters, rfl⟩ := build_eq_ok_iff.mp h
  have hforms (action : String) :
      (Table.insertAll (.ofList Config.builtin) mappings)[action]? =
        (Config.builtin.lookup action).or (mappings.reverse.lookup action) := by
    rw [Table.getElem?_insertAll, getElem?_builtin, lookup_of_flawless hmappings]
  have hnames (kind : String) (names : List String)
      (hfound : (parameters.foldl insertParameter ∅)[kind]? = some names) :
      namesFor parameters kind ≠ [] ∧ (namesFor parameters kind).eraseDups = names := by
    rw [getElem?_foldl_insertParameter] at hfound
    split at hfound
    · cases hfound
    · exact ⟨‹_›, Option.some.inj hfound⟩
  refine ⟨?builtin, ?forms, ?named, ?distinct⟩
  case builtin => exact hforms reviseAndRejectPost
  case forms =>
    intro action form haction hfound
    rw [hforms, lookup_builtin_eq_none_iff.mpr haction, Option.none_or] at hfound
    exact hmappings _ (List.mem_reverse.mp (Table.mem_of_lookup hfound))
  case named =>
    intro kind names hfound
    obtain ⟨hsome, rfl⟩ := hnames kind names hfound
    constructor
    · obtain ⟨name, hname⟩ := List.exists_mem_of_ne_nil _ hsome
      exact List.ne_nil_of_mem (List.mem_eraseDups.mpr hname)
    · intro hmem
      have hempty := hparameters _ (mem_namesFor_iff.mp (List.mem_eraseDups.mp hmem))
      exact parameterFlaw?_eq_none_iff.mp hempty rfl
  case distinct =>
    intro kind names hfound
    obtain ⟨-, rfl⟩ := hnames kind names hfound
    exact nodup_eraseDups _

theorem IsMade.isSound {config : Config} (made : config.IsMade) : config.IsSound := by
  have hfile (file : File) (ok : ofFile file = .ok config) : config.IsSound :=
    isSound_of_build ((ofFile_eq file).symm.trans ok)
  cases made with
  | registered registrations ok =>
    exact isSound_of_build ((ofRegistrations_eq registrations).symm.trans ok)
  | loaded file ok => exact hfile file ok
  | read text ok =>
    unfold ofYaml at ok
    split at ok
    · cases ok
    · rename_i file _
      cases hload : ofFile file with
      | error problem => simp [hload, Except.mapError] at ok
      | ok loaded =>
        obtain rfl : loaded = config := by simpa [hload, Except.mapError] using ok
        exact hfile file hload

/-- The file without the built-in mapping. -/
def File.own (file : File) : File :=
  { file with forms := file.forms.erase reviseAndRejectPost }

/-- Nothing in the file but the built-in mapping has a flaw. -/
theorem IsSound.refused {config : Config} (sound : config.IsSound) :
    ofFile config.toFile = .error (.reserved reviseAndRejectPost reviseAndRejectPost) := by
  have hflaw : ∀ m ∈ config.forms.toList, ∀ problem, mappingFlaw? m = some problem →
      problem = .reserved reviseAndRejectPost reviseAndRejectPost := by
    rintro ⟨action, form⟩ hmem problem hproblem
    have hfound := Std.ExtTreeMap.mem_toList_iff_getElem?_eq_some.mp hmem
    by_cases haction : action = reviseAndRejectPost
    · subst action
      obtain rfl := Option.some.inj (hfound.symm.trans sound.builtin)
      exact (Option.some.inj hproblem).symm
    · rw [sound.forms action form haction hfound] at hproblem
      cases hproblem
  have hbuiltin : (reviseAndRejectPost, reviseAndRejectPost) ∈ config.forms.toList :=
    Std.ExtTreeMap.mem_toList_iff_getElem?_eq_some.mpr sound.builtin
  have hfirst : config.forms.toList.findSome? mappingFlaw? =
      some (.reserved reviseAndRejectPost reviseAndRejectPost) := by
    cases hsome : config.forms.toList.findSome? mappingFlaw? with
    | none => exact absurd (List.findSome?_eq_none_iff.mp hsome _ hbuiltin) (by decide)
    | some problem =>
      obtain ⟨m, hmem, hproblem⟩ := List.exists_of_findSome?_eq_some hsome
      rw [hflaw m hmem problem hproblem]
  rw [ofFile_eq, build_eq_error_iff, toFile, hfirst, Option.some_or]

theorem IsSound.accepted {config : Config} (sound : config.IsSound) :
    ofFile config.toFile.own = .ok config := by
  have hforms : Table.insertAll (.ofList Config.builtin)
      (config.forms.erase reviseAndRejectPost).toList = config.forms := by
    apply Std.ExtTreeMap.ext_getElem?
    intro action
    rw [Table.getElem?_insertAll_toList, getElem?_builtin, Std.ExtTreeMap.getElem?_erase]
    by_cases haction : action = reviseAndRejectPost
    · subst action
      rw [sound.builtin, if_pos Std.ReflCmp.compare_self]
      rfl
    · simp [Ne.symm haction, lookup_builtin_eq_none_iff.mpr haction]
  have hparameters : (parameterList config.parameters.toList).foldl insertParameter ∅ =
      config.parameters := by
    apply Std.ExtTreeMap.ext_getElem?
    intro kind
    rw [getElem?_foldl_insertParameter, namesFor_parameterList (Table.nodup_keys _),
      Table.lookup_toList]
    cases hkind : config.parameters[kind]? with
    | none => rfl
    | some names =>
      rw [Option.getD_some, if_neg (sound.named kind names hkind).1,
        eraseDups_of_nodup (sound.distinct kind names hkind)]
  rw [ofFile_eq, build_eq_ok_iff, File.own, toFile, hforms, hparameters]
  refine ⟨?allowed, ?nonempty, rfl⟩
  case allowed =>
    rintro ⟨action, form⟩ hmem
    have hfound := Std.ExtTreeMap.mem_toList_iff_getElem?_eq_some.mp hmem
    simp only [Std.ExtTreeMap.getElem?_erase,
      Std.LawfulEqOrd.compare_eq_iff_eq] at hfound
    split at hfound
    · cases hfound
    · rename_i haction
      exact sound.forms action form (Ne.symm haction) hfound
  case nonempty =>
    rintro ⟨kind, name⟩ hmem
    obtain ⟨names, hentry, hname⟩ := mem_parameterList_iff.mp hmem
    have hfound := Std.ExtTreeMap.mem_toList_iff_getElem?_eq_some.mp hentry
    rw [parameterFlaw?_eq_none_iff]
    rintro rfl
    exact (sound.named kind names hfound).2 hname

/-- The sound configurations are those that can be made. -/
theorem isMade_iff_isSound {config : Config} : config.IsMade ↔ config.IsSound :=
  ⟨IsMade.isSound, fun sound ↦ .loaded _ sound.accepted⟩

/-- The file of a configuration is refused for the built-in mapping that it lists. Without that
mapping it gives the configuration again. Either file comes back from what is written of it. -/
theorem ofFile_toFile {config : Config} (made : config.IsMade) :
    ofFile config.toFile = .error (.reserved reviseAndRejectPost reviseAndRejectPost) ∧
      ofFile config.toFile.own = .ok config ∧
      Json.decode File.decode config.toFile.toJson.text = .ok config.toFile ∧
      Json.decode File.decode config.toFile.own.toJson.text = .ok config.toFile.own :=
  ⟨made.isSound.refused, made.isSound.accepted, config.toFile.decode_text,
    config.toFile.own.decode_text⟩

/-- The file of the least configuration there is gives none. -/
theorem not_ofFile_toFile_default :
    IsMade default ∧ ∀ config, ofFile (default : Config).toFile ≠ .ok config := by
  have hrefused : ofFile (default : Config).toFile =
      .error (.reserved reviseAndRejectPost reviseAndRejectPost) := rfl
  refine ⟨.registered [] rfl, fun config hok ↦ ?_⟩
  cases hrefused.symm.trans hok

theorem ofFile_toFile_of_registered :
    let registrations : List Registration :=
      [.mode .required, .form "escalate" "escalation_form",
        .parameter "ReviewableAkismetPost" "spam_score",
        .parameter "ReviewableAkismetPost" "akismet_state"]
    ∃ config, ofRegistrations registrations = .ok config ∧
      ofFile config.toFile = .error (.reserved reviseAndRejectPost reviseAndRejectPost) ∧
      ofFile config.toFile.own = .ok config := by
  intro registrations
  obtain ⟨hrefused, haccepted, -⟩ := ofFile_toFile (.registered registrations rfl)
  exact ⟨_, rfl, hrefused, haccepted⟩

end Moderation.Config
