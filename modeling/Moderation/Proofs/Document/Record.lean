import Moderation.Proofs.Document.Reads

/-!
# Records

A record is read from an object that has its keys in whatever order. What becomes of the other
members of the object depends on the record: they are passed over, or gathered.
-/

namespace Moderation.Record

variable {record : Record} {levels : Nat} {members : List (String × Json)}
  {draft result : record.Draft}

/-- Every key of the record is found by its name. -/
def IsKeyed (record : Record) : Prop := ∀ key, record.key? (record.name key) = some key

theorem name_of_key? {name : String} {key : record.Key} (h : record.key? name = some key) :
    record.name key = name := by
  simpa using List.find?_some h

theorem IsKeyed.eq_of_name_eq (keyed : record.IsKeyed) {name : String} {key next : record.Key}
    (named : record.key? name = some key) (h : record.name next = name) : next = key := by
  rw [← h, keyed next] at named
  exact Option.some.inj named

theorem key?_eq_none_iff (keyed : record.IsKeyed) {name : String} :
    record.key? name = none ↔ ∀ key, record.name key ≠ name := by
  constructor
  · rintro hnone key rfl
    rw [keyed key] at hnone
    cases hnone
  · intro hne
    rw [Option.eq_none_iff_forall_ne_some]
    exact fun key hkey ↦ hne key (name_of_key? hkey)

/-- The members say what the draft has. -/
def Tells (record : Record) (levels : Nat) (members : List (String × Json)) (draft : record.Draft) :
    Prop :=
  ∀ key, (record.read key).Finds levels members (record.name key) (draft key)

section

variable {σ : Type} {other : Nat → σ → String → Document → Except DecodeFault σ}
  {rest : σ}

theorem readMembers_known {name : String} {document : Document}
    {entries : List (Document × Document)} {key : record.Key} {v : record.Value key}
    (named : record.key? name = some key) (fresh : draft key = none)
    (read : record.read key levels document = .ok v) :
    record.readMembers other levels ((.text (some name), document) :: entries) draft rest =
      record.readMembers other levels entries (record.put draft key v) rest := by
  rw [readMembers]
  simp only [Decoder.string, Document.untagged, bind, Except.bind, named, fresh, read]
  rfl

theorem readMembers_unknown {name : String} {document : Document}
    {entries : List (Document × Document)} {next : σ} (named : record.key? name = none)
    (read : other levels rest name document = .ok next) :
    record.readMembers other levels ((.text (some name), document) :: entries) draft rest =
      record.readMembers other levels entries draft next := by
  rw [readMembers]
  simp only [Decoder.string, Document.untagged, bind, Except.bind, named, read]

theorem put_self (key : record.Key) (v : record.Value key) :
    record.put draft key v key = some v := by
  rw [put, dif_pos rfl]

theorem put_of_ne {key next : record.Key} (v : record.Value key) (h : next ≠ key) :
    record.put draft key v next = draft next := by
  rw [put, dif_neg h]

/-- What is read of members with names of their own: a value for each key, and the others one
after another. -/
theorem readMembers_eq_ok (other : Nat → σ → String → Document → Except DecodeFault σ)
    (add : σ → String × Json → σ) (rest : σ) (keyed : record.IsKeyed)
    (distinct : Fields.AreDistinct members)
    (known : ∀ member ∈ members, ∀ key, record.key? member.1 = some key → draft key = none ∧
      ∃ v, record.read key levels member.2.toDocument = .ok v ∧ result key = some v)
    (unknown : ∀ rest, ∀ member ∈ members, record.key? member.1 = none →
      other levels rest member.1 member.2.toDocument = .ok (add rest member))
    (left : ∀ key, record.name key ∉ members.map Prod.fst → result key = draft key) :
    record.readMembers other levels (Json.toMembers members) draft rest =
      .ok (result,
        (members.filter fun member ↦ (record.key? member.1).isNone).foldl add rest) := by
  induction members generalizing draft rest with
  | nil =>
    have hresult : result = draft := funext fun key ↦ left key (by simp)
    rw [hresult]
    rfl
  | cons member tail ih =>
    obtain ⟨name, value⟩ := member
    obtain ⟨hknown, knownTail⟩ := List.forall_mem_cons.mp known
    have unknownTail : ∀ rest, ∀ member ∈ tail, record.key? member.1 = none →
        other levels rest member.1 member.2.toDocument = .ok (add rest member) :=
      fun rest member hmem ↦ unknown rest member (List.mem_cons_of_mem _ hmem)
    obtain ⟨hnotin, distinctTail⟩ := List.nodup_cons.mp distinct
    have leftTail : ∀ key, record.name key ≠ name → record.name key ∉ tail.map Prod.fst →
        result key = draft key :=
      fun key hne hmem ↦ left key (mt List.mem_cons.mp (not_or.mpr ⟨hne, hmem⟩))
    rw [Json.toMembers]
    cases hnamed : record.key? name with
    | some key =>
      obtain ⟨hfresh, v, hread, hresult⟩ := hknown key hnamed
      rw [readMembers_known hnamed hfresh hread, ih rest distinctTail ?_ unknownTail ?_]
      · simp [hnamed]
      · intro member hmem next hnext
        have hne : next ≠ key := by
          rintro rfl
          have hname : member.1 = name := (name_of_key? hnext).symm.trans (name_of_key? hnamed)
          exact hnotin (List.mem_map.mpr ⟨member, hmem, hname⟩)
        rw [put_of_ne v hne]
        exact knownTail member hmem next hnext
      · intro next hmem
        by_cases hnext : next = key
        · subst hnext
          rw [put_self, hresult]
        · have hne : record.name next ≠ name := mt (keyed.eq_of_name_eq hnamed) hnext
          rw [put_of_ne v hnext, leftTail next hne hmem]
    | none =>
      have hne := (key?_eq_none_iff keyed).mp hnamed
      rw [readMembers_unknown hnamed (unknown rest _ List.mem_cons_self hnamed),
        ih _ distinctTail knownTail unknownTail fun next hmem ↦ leftTail next (hne next) hmem]
      simp [hnamed]

end

/-- However the members are written, those with a key are read as the draft has it. -/
theorem Tells.known (tells : record.Tells levels members draft)
    (distinct : Fields.AreDistinct members) {sorted : Bool} {entries : List (String × Json)}
    (same : ∀ name value, (name, value) ∈ entries ↔
      ∃ v, (name, v) ∈ members ∧ v.written sorted = value) :
    ∀ entry ∈ entries, ∀ key, record.key? entry.1 = some key → record.blank key = none ∧
      ∃ v, record.read key levels entry.2.toDocument = .ok v ∧ draft key = some v := by
  rintro ⟨name, value⟩ hentry key hkey
  obtain ⟨v, hmem, rfl⟩ := (same name value).mp hentry
  obtain rfl := name_of_key? hkey
  have htells := tells key
  cases hdraft : draft key with
  | none =>
    rw [hdraft] at htells
    exact absurd hmem (htells v)
  | some result =>
    rw [hdraft] at htells
    obtain ⟨value, hvalue, hreads⟩ := htells
    obtain rfl := distinct.eq_of_mem hmem hvalue
    exact ⟨rfl, result, hreads sorted, rfl⟩

/-- Keys that no member has are missing in the draft. -/
theorem Tells.left (tells : record.Tells levels members draft) {sorted : Bool}
    {entries : List (String × Json)}
    (same : ∀ name value, (name, value) ∈ entries ↔
      ∃ v, (name, v) ∈ members ∧ v.written sorted = value) :
    ∀ key, record.name key ∉ entries.map Prod.fst → draft key = record.blank key := by
  intro key hnotin
  have htells := tells key
  cases hdraft : draft key with
  | none => rfl
  | some result =>
    rw [hdraft] at htells
    obtain ⟨value, hvalue, -⟩ := htells
    have hentry := (same _ (value.written sorted)).mpr ⟨value, hvalue, rfl⟩
    exact absurd (List.mem_map_of_mem hentry) hnotin

/-- A record that passes over other members is read from an object as its members say. -/
theorem reads_decode (keyed : record.IsKeyed) (tells : record.Tells levels members draft)
    (distinct : Fields.AreDistinct members) :
    record.decode.Reads (levels + 1) (.object members) draft := by
  intro sorted
  obtain ⟨entries, hwritten, hdistinct, same⟩ := Json.written_object sorted distinct
  have hskip : ∀ (rest : Unit), ∀ entry ∈ entries, record.key? entry.1 = none →
      Decoder.skip entry.2.toDocument = .ok () :=
    fun _ entry _ _ ↦ if_pos entry.2.sound_toDocument
  have hread := readMembers_eq_ok (fun _ () _ value ↦ Decoder.skip value) (fun () _ ↦ ()) ()
    keyed hdistinct (tells.known distinct same) hskip
    (tells.left same)
  rw [hwritten, Json.toDocument, decode]
  simp only [Document.untagged, Decoder.descend, bind, Except.bind, hread]
  rfl

/-- A record that gathers other members gets them as they come back. -/
theorem decodeOpen_written (keyed : record.IsKeyed) (tells : record.Tells levels members draft)
    (distinct : Fields.AreDistinct members)
    (legible : ∀ name value, (name, value) ∈ members → record.key? name = none →
      value.isLegible levels = true) (sorted : Bool) :
    ∃ others, record.decodeOpen (levels + 1) ((Json.object members).written sorted).toDocument =
        .ok (draft, others) ∧ Fields.AreDistinct others ∧
      ∀ name value, (name, value) ∈ others ↔
        record.key? name = none ∧ ∃ v, (name, v) ∈ members ∧ v.reread = value := by
  obtain ⟨entries, hwritten, hdistinct, same⟩ := Json.written_object sorted distinct
  have hgather : ∀ (rest : List (String × Json)), ∀ entry ∈ entries,
      record.key? entry.1 = none →
        (do pure ((entry.1, ← Decoder.json levels entry.2.toDocument) :: rest)) =
          Except.ok ((entry.1, entry.2.reread) :: rest) := by
    rintro rest ⟨name, value⟩ hentry hkey
    obtain ⟨v, hmem, rfl⟩ := (same name value).mp hentry
    rw [Json.json_toDocument (Json.isLegible_written (legible name v hmem hkey))]
    rfl
  have hread := readMembers_eq_ok
    (fun levels others name value ↦ do pure ((name, ← Decoder.json levels value) :: others))
    (fun others entry ↦ (entry.1, entry.2.reread) :: others) [] keyed hdistinct
    (tells.known distinct same) hgather (tells.left same)
  refine ⟨(entries.filter fun entry ↦ (record.key? entry.1).isNone).map
    fun entry ↦ (entry.1, entry.2.reread), ?_, ?_, fun name value ↦ ?_⟩
  · rw [hwritten, Json.toDocument, decodeOpen]
    simp only [bind, Except.bind] at hread
    simp only [Document.untagged, Decoder.descend, bind, Except.bind, hread,
      List.foldl_flip_cons_eq_append, List.append_nil, Decoder.checkEnding, List.reverse_reverse]
    rfl
  · rw [Fields.AreDistinct, List.map_map]
    exact (hdistinct.sublist (List.filter_sublist.map _))
  · simp only [List.mem_map, List.mem_filter, Option.isNone_iff_eq_none, Prod.exists,
      Prod.mk.injEq]
    constructor
    · rintro ⟨_, written, ⟨hentry, hnone⟩, rfl, rfl⟩
      obtain ⟨v, hmem, rfl⟩ := (same _ written).mp hentry
      exact ⟨hnone, v, hmem, v.reread_written.symm⟩
    · rintro ⟨hnone, v, hmem, rfl⟩
      exact ⟨name, v.written sorted, ⟨(same _ _).mpr ⟨v, hmem, rfl⟩, hnone⟩, rfl, v.reread_written⟩

end Moderation.Record
