import Moderation.Proofs.Http.Plain

/-!
# Requests that come back

The service understands what a client sends as the request that it was sent for, made by the actor
of the client. Who only reads is nobody in particular, which makes no difference to the queue.
-/

namespace Moderation.Http

open Decoder

namespace Body

variable {α : Type} {decoder : Decoder α} {value : Json} {result : α}

/-- A value that reads back from its text reads back from the bytes of its text. -/
theorem decode_encode (h : decoder.Reads Json.depth value result) :
    decode decoder (Utf8.encode value.text) = .ok result := by
  rw [decode, Utf8.encode, Utf8.decodeSound_encodeChars, String.ofList_toList, h.decode_text]

/-- The bytes of an object begin with a brace. -/
theorem encode_object (members : List (String × Json)) :
    ∃ rest, Utf8.encode (Json.object members).text = 123 :: rest :=
  ⟨Utf8.encodeChars (Json.printMembers members), by
    rw [Json.text, Utf8.encode, String.toList_ofList, Json.print]
    rfl⟩

/-- The same of fields, which have to be an object. -/
theorem object_encode {members : List (String × Json)} {fields : Fields}
    (h : Decoder.fields.Reads Json.depth (.object members) fields) :
    object (Utf8.encode (Json.object members).text) = .ok fields := by
  obtain ⟨rest, hbytes⟩ := encode_object members
  have hblank : (Utf8.encode (Json.object members).text).all isBlank = false := by
    rw [hbytes]
    rfl
  rw [object, hblank]
  exact decode_encode h

/-- The body of an edit is an object with the edited fields in it. -/
theorem reads_edit {updates : Fields} {levels : Nat} (h : updates.ArePlain levels) :
    Decoder.Reads (fun levels d ↦ do pure (((← edit.decode levels d) .updates).getD ∅)) (levels + 2)
      (.object [("reviewable", .ofFields updates)]) updates := by
  have hkeyed : edit.IsKeyed := by rintro ⟨⟩; rfl
  have htells : edit.Tells (levels + 1) [("reviewable", .ofFields updates)]
      fun _ ↦ some updates := by
    rintro ⟨⟩
    exact ⟨_, List.mem_cons_self, reads_fields h⟩
  exact (Record.reads_decode hkeyed htells (show ["reviewable"].Nodup by decide)).bind rfl

/-- What a client sends as an edit the service reads as these updates. -/
theorem updates_encode {updates : Fields} (h : updates.ArePlain fieldLevels) :
    Body.updates (Utf8.encode (Json.object [("reviewable", .ofFields updates)]).text) =
      .ok updates := by
  obtain ⟨rest, hbytes⟩ := encode_object [("reviewable", .ofFields updates)]
  have hempty : (Utf8.encode (Json.object [("reviewable", .ofFields updates)]).text).isEmpty =
      false := by
    rw [hbytes]
    rfl
  have hreads := reads_edit (h.mono (show fieldLevels ≤ 125 by decide))
  rw [Body.updates, hempty]
  exact decode_encode hreads

/-- The body of a claim names the topic, and whether the claim is automatic. -/
theorem reads_claim (topic : TopicId) (automatic : Bool) {levels : Nat} :
    Decoder.Reads
      (fun levels d ↦ do
        let draft ← claim.decode levels d
        let topic ← DecodeFault.require (draft .topic)
        pure (topic, (draft .automatic).getD false)) (levels + 1)
      (.object [("automatic", .bool automatic), ("topic_id", topic.toJson)])
      (topic, automatic) := by
  let draft : claim.Draft
    | .topic => some topic
    | .automatic => some automatic
  have hkeyed : claim.IsKeyed := by rintro (_ | _) <;> rfl
  have htells : claim.Tells levels
      [("automatic", .bool automatic), ("topic_id", topic.toJson)] draft := by
    rintro (_ | _)
    · exact ⟨_, by simp, reads_topicId topic⟩
    · exact ⟨_, by simp, reads_bool automatic⟩
  exact (Record.reads_decode hkeyed htells
    (show ["automatic", "topic_id"].Nodup by decide)).bind rfl

/-- What a client sends for a claim the service reads as this claim. -/
theorem claimed_encode (topic : TopicId) (automatic : Bool) :
    claimed (Utf8.encode
      (Json.object [("automatic", .bool automatic), ("topic_id", topic.toJson)]).text) =
        .ok (topic, automatic) :=
  decode_encode (reads_claim topic automatic)

/-- The body of a release is an object of which only one member counts. -/
theorem object_encode_release (automatic : Bool) :
    ∃ fields : Fields,
      object (Utf8.encode (Json.object [("automatic", .bool automatic)]).text) = .ok fields ∧
        (fields["automatic"]?.bind Json.asBool?).getD false = automatic := by
  have hdistinct : Fields.AreDistinct [("automatic", Json.bool automatic)] :=
    show ["automatic"].Nodup by decide
  have hreads : Decoder.fields.Reads (126 + 1) (.object [("automatic", .bool automatic)])
      (Fields.ofMembers [("automatic", .bool automatic)]) :=
    reads_object hdistinct (List.forall_mem_singleton.mpr (.bool automatic))
  refine ⟨_, object_encode hreads, ?_⟩
  rw [(Fields.getElem?_ofMembers_iff hdistinct).mpr List.mem_cons_self]
  rfl

end Body

namespace Headers

theorem get?_cons_self {header name : String} (h : asciiLower header = name) (value : List UInt8)
    (headers : Headers) : get? ((header, value) :: headers) name = some value := by
  rw [get?, List.find?_cons_of_pos (by simpa using h)]
  rfl

theorem get?_cons_of_ne {header name : String} (h : asciiLower header ≠ name) (value : List UInt8)
    (headers : Headers) : get? ((header, value) :: headers) name = get? headers name := by
  rw [get?, List.find?_cons_of_neg (by simpa using h)]
  rfl

/-- A header may have the bytes from the space on and the tabulator, but not the delete character.
-/
theorem isAllowed_iff {b : UInt8} :
    isAllowed b = true ↔ 0x20 ≤ b.toNat ∧ b.toNat ≠ 0x7f ∨ b.toNat = 0x9 := by
  simp only [isAllowed, Bool.or_eq_true, Bool.and_eq_true, decide_eq_true_eq, bne_iff_ne, ne_eq,
    beq_iff_eq, UInt8.le_iff_toNat_le, ← UInt8.toNat_inj]
  rfl

/-- Visible are the printable characters of ASCII and the tabulator. -/
theorem isVisible_iff {b : UInt8} :
    isVisible b = true ↔ 0x20 ≤ b.toNat ∧ b.toNat < 0x7f ∨ b.toNat = 0x9 := by
  simp only [isVisible, Bool.or_eq_true, Bool.and_eq_true, decide_eq_true_eq, beq_iff_eq,
    UInt8.le_iff_toNat_le, UInt8.lt_iff_toNat_lt, ← UInt8.toNat_inj]
  rfl

theorem isAllowed_of_isVisible {b : UInt8} (h : isVisible b = true) : isAllowed b = true := by
  rw [isVisible_iff] at h
  rw [isAllowed_iff]
  omega

/-- A header that is there already counts before what is added behind. -/
theorem get?_append {headers : Headers} {name : String} {value : List UInt8}
    (h : headers.get? name = some value) (more : Headers) :
    get? (headers ++ more) name = some value := by
  obtain ⟨header, hfind, rfl⟩ := Option.map_eq_some_iff.mp h
  rw [get?, List.find?_append, hfind]
  rfl

end Headers

namespace Identity

theorem value?_append {headers : Headers} {name value : String}
    (h : value? headers name = some value) (more : Headers) :
    value? (headers ++ more) name = some value := by
  cases hget : headers.get? name with
  | none => simp [value?, hget] at h
  | some bytes =>
    rw [value?, Headers.get?_append hget]
    rwa [value?, hget] at h

/-- What the headers name, they name with others behind them. -/
theorem moderator_append {headers : Headers} {user : User} (h : moderator headers = .ok user)
    (more : Headers) : moderator (headers ++ more) = .ok user := by
  rw [moderator] at h ⊢
  cases hid : value? headers idHeader with
  | none => simp [hid] at h
  | some id =>
    cases husername : value? headers usernameHeader with
    | none =>
      simp only [hid, husername] at h
      cases hread : Unsigned.read id <;> simp [hread] at h
    | some username =>
      rw [hid, husername] at h
      rwa [value?_append hid, value?_append husername]

/-- The header of the number is not taken for the one of the name. -/
theorem idHeader_lower_ne : Headers.asciiLower idHeader ≠ usernameHeader := by decide +kernel

theorem usernameHeader_lower : Headers.asciiLower usernameHeader = usernameHeader := by
  decide +kernel

/-- Among the headers of a user the name is found by its header. -/
theorem get?_usernameHeader (user : User) :
    (headers user).get? usernameHeader = some (Utf8.encode user.username) := by
  rw [headers, Headers.get?_cons_of_ne idHeader_lower_ne,
    Headers.get?_cons_self usernameHeader_lower]

/-- Headers that the service reads can be sent. -/
theorem isAllowed_username {user : User} (h : moderator (headers user) = .ok user) :
    (Utf8.encode user.username).all Headers.isAllowed = true := by
  by_cases hvisible : (Utf8.encode user.username).all Headers.isVisible = true
  · rw [List.all_eq_true] at hvisible ⊢
    exact fun b hb ↦ Headers.isAllowed_of_isVisible (hvisible b hb)
  -- Without a value for the name the service would not know the user.
  · have hvalue : value? (headers user) usernameHeader = none := by
      have htext : Headers.text? (Utf8.encode user.username) = none := if_neg hvisible
      rw [value?, get?_usernameHeader]
      simp [htext]
    rw [moderator, hvalue] at h
    cases hid : value? (headers user) idHeader with
    | none => simp [hid] at h
    | some id =>
      simp only [hid] at h
      cases hread : Unsigned.read id <;> simp [hread] at h

end Identity

namespace Client

/-- The words that the path of a request is made of. -/
def wordsOf : Moderation.Request → List (List Char)
  | .perform id action _ _ =>
    ["review".toList, (toString id.value).toList, "perform".toList, action.toList]
  | .claim .. => ["reviewable_claimed_topics".toList]
  | .release topic _ => ["reviewable_claimed_topics".toList, (toString topic.value).toList]
  | .fetch id | .update id _ _ => ["review".toList, (toString id.value).toList]
  | .list => ["review".toList]

/-- The path of a request is made of its words. -/
theorem toList_pathOf (request : Moderation.Request) :
    (pathOf request).toList = pathOfWords (wordsOf request) := by
  cases request with
  | perform id action version data =>
    change ("/review/" ++ toString id.value ++ "/perform/" ++ action).toList = pathOfWords
      ["review".toList, (toString id.value).toList, "perform".toList, action.toList]
    simp [pathOfWords]
  | claim topic automatic =>
    change "/reviewable_claimed_topics".toList = pathOfWords ["reviewable_claimed_topics".toList]
    simp [pathOfWords]
  | list =>
    change "/review".toList = pathOfWords ["review".toList]
    simp [pathOfWords]
  | release topic automatic =>
    change ("/reviewable_claimed_topics/" ++ toString topic.value).toList =
      pathOfWords ["reviewable_claimed_topics".toList, (toString topic.value).toList]
    simp [pathOfWords]
  | fetch id | update id version updates =>
    change ("/review/" ++ toString id.value).toList =
      pathOfWords ["review".toList, (toString id.value).toList]
    simp [pathOfWords]

/-- A number is written with digits only, so that nothing of it is escaped. -/
theorem isWord_toString (n : UInt64) : IsWord (toString n).toList := by
  rw [Unsigned.toList_toString]
  refine ⟨digitsOf_ne_nil _, fun c hc ↦ ?_⟩
  have hdigit : c.isDigit = true := isDigit_of_mem_digitsOf hc
  rw [isWordChar, Char.isAlphanum, hdigit, Bool.or_true, Bool.true_or, Bool.true_or, Bool.true_or]

/-- Nothing of a plain request is escaped in its path. -/
theorem isWord_wordsOf {request : Moderation.Request} (h : request.IsPlain) :
    ∀ word ∈ wordsOf request, IsWord word := by
  have hreview : IsWord "review".toList := by decide
  have hperform : IsWord "perform".toList := by decide
  have hclaims : IsWord "reviewable_claimed_topics".toList := by decide
  cases request with
  | perform id action version data =>
    simp only [wordsOf, List.forall_mem_cons]
    exact ⟨hreview, isWord_toString _, hperform, h.1, nofun⟩
  | claim => exact List.forall_mem_singleton.mpr hclaims
  | release topic => 
    simp only [wordsOf, List.forall_mem_cons]
    exact ⟨hclaims, isWord_toString _, nofun⟩
  | fetch id | update id =>
    simp only [wordsOf, List.forall_mem_cons]
    exact ⟨hreview, isWord_toString _, nofun⟩
  | list => exact List.forall_mem_singleton.mpr hreview

/-- The query that names a version. -/
def versionQuery (v : UInt64) : List Char := "version".toList ++ '=' :: (toString v).toList

/-- The query of a version has neither a sign that ends it nor one that is escaped. -/
theorem mem_versionQuery {v : UInt64} {c : Char} (h : c ∈ versionQuery v) :
    c = '=' ∨ isWordChar c = true := by
  rcases List.mem_append.mp h with hname | hvalue
  · exact .inr ((by decide : IsWord "version".toList).chars c hname)
  · exact (List.mem_cons.mp hvalue).imp_right ((isWord_toString v).chars c)

theorem not_mem_versionQuery {v : UInt64} {c : Char} (hmark : c ≠ '=')
    (hchar : isWordChar c = false) : c ∉ versionQuery v := by
  intro hc
  rcases mem_versionQuery hc with heq | hword
  · exact hmark heq
  · rw [hword] at hchar
    cases hchar

/-- The query of a request: the version that it was prepared against. -/
def queryOf (request : Moderation.Request) : Option (List Char) :=
  (versionOf? request).map versionQuery

/-- The target of a request at the root names its words and its version. -/
theorem ofString_target {c : Client} (root : c.root = "") {request : Moderation.Request}
    (h : request.IsPlain) :
    Target.ofString (c.encode request).target =
      ⟨(wordsOf request).map Address.encodeSegment, (queryOf request).getD []⟩ := by
  have hne : wordsOf request ≠ [] := by cases request <;> exact List.cons_ne_nil _ _
  have hvalues : (versionOf? request).toList.map
      (fun v ↦ "version=".toList ++ (toString v).toList) = (queryOf request).toList := by
    rw [queryOf]
    cases versionOf? request <;> rfl
  have hvalue : ∀ value ∈ queryOf request, value ≠ [] := by
    intro value hvalue
    obtain ⟨v, -, rfl⟩ := Option.map_eq_some_iff.mp hvalue
    exact List.cons_ne_nil _ _
  have hquery : ∀ c ∈ (queryOf request).getD [], c ≠ ':' ∧ c ≠ '#' := by
    rw [queryOf]
    cases versionOf? request with
    | none => nofun
    | some v =>
      intro c hc
      constructor <;> rintro rfl <;> exact not_mem_versionQuery (by decide) (by decide) hc
  rw [Client.encode]
  dsimp only
  rw [Target.ofString, target, root, String.empty_append, toList_pathOf, String.toList_ofList,
    hvalues, Address.target_pathOfWords (isWord_wordsOf h) hne hvalue,
    Target.ofChars_sent (isWord_wordsOf h) hne hquery]

end Client

/-! ## Parts of requests -/

namespace Request

open Client Address

/-- A number comes back from its segment. -/
theorem number_encodeSegment (n : UInt64) :
    number (encodeSegment (toString n).toList) = .ok n := by
  rw [number, Target.segmentText?_encodeSegment (isWord_toString n), String.ofList_toList]
  dsimp only
  rw [Unsigned.read_toString]
  rfl

/-- The version comes back from the query. -/
theorem version?_versionQuery (segments : List (List Char)) (v : UInt64) :
    version? ⟨segments, versionQuery v⟩ = .ok (some v) := by
  have hparts : Text.splitOn '&' (versionQuery v) = [versionQuery v] :=
    Text.splitOn_of_not_mem (not_mem_versionQuery (by decide) (by decide))
  have hcut : Text.cut '=' (versionQuery v) = ("version".toList, some (toString v).toList) :=
    Text.cut_append (by decide) _
  have hname : Target.queryText "version".toList = "version" := by
    rw [Target.queryText_of_wordChars (by decide : IsWord "version".toList).chars,
      String.ofList_toList]
  have hvalue : Target.queryText (toString v).toList = toString v := by
    rw [Target.queryText_of_wordChars (isWord_toString v).chars, String.ofList_toList]
  have hpairs : Target.pairs ⟨segments, versionQuery v⟩ = [("version", toString v)] := by
    rw [Target.pairs, hparts, List.filter_cons_of_pos (by rfl), List.filter_nil, List.map_singleton,
      hcut]
    dsimp only [Option.getD_some]
    rw [hname, hvalue]
  rw [version?, hpairs]
  simp [Unsigned.read_toString, Except.map, Except.mapError]

/-- The place that a request is sent to. -/
def routeOf : Moderation.Request → Route
  | .perform id action _ _ =>
    .perform (encodeSegment (toString id.value).toList) (encodeSegment action.toList)
  | .claim .. => .claims
  | .release topic _ => .claim (encodeSegment (toString topic.value).toList)
  | .fetch id | .update id _ _ => .reviewable (encodeSegment (toString id.value).toList)
  | .list => .list

/-- The words of a request lead to its route. -/
theorem ofSegments?_wordsOf {request : Moderation.Request} (h : request.IsPlain) :
    Route.ofSegments? ((wordsOf request).map encodeSegment) = some (routeOf request) := by
  have hreview : encodeSegment "review".toList = "review".toList := by decide
  have hperform : encodeSegment "perform".toList = "perform".toList := by decide
  have hclaims : encodeSegment "reviewable_claimed_topics".toList =
      "reviewable_claimed_topics".toList := by decide
  have hitem : ∀ n : UInt64, (encodeSegment (toString n).toList).isEmpty = false := fun n ↦ by
    simpa using Target.encodeSegment_ne_nil (isWord_toString n)
  cases request with
  | perform id action version data =>
    have haction : (encodeSegment action.toList).isEmpty = false := by
      simpa using Target.encodeSegment_ne_nil h.1
    rw [wordsOf, List.map_cons, List.map_cons, List.map_cons, List.map_singleton, hreview, hperform]
    exact if_pos ⟨rfl, rfl, by simp [hitem], by simp [haction]⟩
  | claim topic automatic =>
    rw [wordsOf, List.map_singleton, hclaims]
    rfl
  | release topic automatic =>
    rw [wordsOf, List.map_cons, List.map_singleton, hclaims]
    exact (if_neg (by simp [hitem])).trans ((if_neg (by decide)).trans (if_pos rfl))
  | fetch id | update id =>
    rw [wordsOf, List.map_cons, List.map_singleton, hreview]
    exact (if_neg (by simp [hitem])).trans (if_pos rfl)
  | list =>
    rw [wordsOf, List.map_singleton, hreview]
    rfl

/-- The route of a request takes its method. -/
theorem methodOf_allowed (request : Moderation.Request) :
    methodOf request ∈ (routeOf request).methods := by
  cases request <;> simp [methodOf, routeOf, Route.methods]

/-- No request is sent with one of the methods that the service treats apart. -/
theorem methodOf_ne (request : Moderation.Request) :
    methodOf request ≠ "HEAD" ∧ methodOf request ≠ "OPTIONS" := by
  cases request <;> simp [methodOf]

/-- A plain request is sent where it belongs. -/
theorem call_encode_eq {c : Client} (root : c.root = "") {request : Moderation.Request}
    (h : request.IsPlain) :
    (c.encode request).call = (c.encode request).callOn
      ⟨(wordsOf request).map encodeSegment, (queryOf request).getD []⟩ (methodOf request)
      (routeOf request) := by
  have hmethod : (if (c.encode request).method = "HEAD" then "GET" else (c.encode request).method) =
      methodOf request := if_neg (methodOf_ne request).1
  rw [Request.call, ofString_target root h]
  dsimp only
  rw [ofSegments?_wordsOf h]
  dsimp only
  rw [hmethod, if_pos (List.contains_iff_mem.mpr (methodOf_allowed request))]

/-- Whom the headers identify is the actor of the call. -/
theorem actor_encode {c : Client}
    (identified : Identity.moderator (Identity.headers c.actor) = .ok c.actor)
    (request : Moderation.Request) : (c.encode request).actor = .ok c.actor := by
  rw [Request.actor, Client.encode]
  dsimp only
  rw [Identity.moderator_append identified]
  rfl

/-- A request with a body says that the body is JSON. -/
theorem declaresJson_encode {c : Client} {request : Moderation.Request} {body : Json}
    (h : bodyOf? request = some body) :
    MediaType.declaresJson (c.encode request).headers = true := by
  have hid : Headers.asciiLower Identity.idHeader ≠ "content-type" := by decide +kernel
  have husername : Headers.asciiLower Identity.usernameHeader ≠ "content-type" := by decide +kernel
  have hcontent : Headers.asciiLower "content-type" = "content-type" := by decide +kernel
  have hget : Headers.get? (c.encode request).headers "content-type" =
      some (Utf8.encode jsonType) := by
    rw [Client.encode, h]
    dsimp only [Identity.headers, List.cons_append, List.nil_append]
    rw [Headers.get?_cons_of_ne hid, Headers.get?_cons_of_ne husername,
      Headers.get?_cons_self hcontent]
  rw [MediaType.declaresJson, hget]
  decide

/-- The bytes of the body are the text of what is sent. -/
theorem body_encode {c : Client} {request : Moderation.Request} {body : Json}
    (h : bodyOf? request = some body) : (c.encode request).body = Utf8.encode body.text := by
  rw [Client.encode, h]

/-- What a client sends for a plain request is understood as the request, if the service reads so
long a body. -/
theorem call_encode {c : Client} (root : c.root = "")
    (identified : Identity.moderator (Identity.headers c.actor) = .ok c.actor)
    {request : Moderation.Request} (h : request.IsPlain)
    (fits : (c.encode request).body.length ≤ Body.limit) :
    ∃ actor, (c.encode request).call = .ok (.serve actor request) ∧
      ∀ q : Queue, q.serve actor request = q.serve c.actor request := by
  have hactor := actor_encode identified request
  have hread : (c.encode request).readBody = .ok (c.encode request).body := if_pos fits
  rw [call_encode_eq root h]
  cases request with
  | perform id action version data =>
    have hbody : Body.object (c.encode (.perform id action version data)).body = .ok data := by
      rw [body_encode rfl]
      exact Body.object_encode (reads_fields (h.2.mono (show fieldLevels ≤ 126 by decide)))
    refine ⟨c.actor, ?_, fun q ↦ rfl⟩
    generalize c.encode (.perform id action version data) = r at hactor hread hbody ⊢
    simp only [routeOf, callOn, hactor, number_encodeSegment, Target.segmentText?_encodeSegment h.1,
      queryOf, versionOf?, Option.map_some, Option.getD_some, version?_versionQuery, hread,
      requireVersion, hbody, bind, Except.bind, Except.mapError, String.ofList_toList]
    rfl
  | claim topic automatic =>
    have hjson : MediaType.declaresJson (c.encode (.claim topic automatic)).headers = true :=
      declaresJson_encode rfl
    have hbody : Body.claimed (c.encode (.claim topic automatic)).body =
        .ok (topic, automatic) := by
      rw [body_encode rfl]
      exact Body.claimed_encode topic automatic
    refine ⟨c.actor, ?_, fun q ↦ rfl⟩
    generalize c.encode (.claim topic automatic) = r at hactor hjson hread hbody ⊢
    simp only [routeOf, callOn, hactor, hjson, if_true, hread, hbody, bind, Except.bind,
      Except.mapError]
    rfl
  | release topic automatic =>
    obtain ⟨fields, hfields, hautomatic⟩ := Body.object_encode_release automatic
    have hbody : Body.object (c.encode (.release topic automatic)).body = .ok fields := by
      rw [body_encode rfl, hfields]
    refine ⟨c.actor, ?_, fun q ↦ rfl⟩
    generalize c.encode (.release topic automatic) = r at hactor hread hbody ⊢
    simp only [routeOf, callOn, hactor, number_encodeSegment, hread, hbody, bind, Except.bind,
      Except.mapError, hautomatic]
    rfl
  | fetch id =>
    refine ⟨nobody, ?_, fun q ↦ rfl⟩
    simp only [routeOf, callOn, methodOf, if_true, number_encodeSegment, bind, Except.bind]
    rfl
  | list => exact ⟨nobody, rfl, fun q ↦ rfl⟩
  | update id version updates =>
    have hbody : Body.updates (c.encode (.update id version updates)).body = .ok updates := by
      rw [body_encode rfl]
      exact Body.updates_encode h.1
    have hput : "PUT" ≠ "GET" := by decide
    refine ⟨c.actor, ?_, fun q ↦ rfl⟩
    generalize c.encode (.update id version updates) = r at hactor hread hbody ⊢
    simp only [routeOf, callOn, methodOf, if_neg hput, hactor, number_encodeSegment, queryOf,
      versionOf?, Option.map_some, Option.getD_some, version?_versionQuery, hread, requireVersion,
      hbody, bind, Except.bind, Except.mapError]
    rfl

/-- A plain request with a longer body is rejected for it, and for nothing else. -/
theorem call_encode_of_long {c : Client} (root : c.root = "")
    (identified : Identity.moderator (Identity.headers c.actor) = .ok c.actor)
    {request : Moderation.Request} (h : request.IsPlain)
    (long : ¬ (c.encode request).body.length ≤ Body.limit) :
    (c.encode request).call = .error .tooLong := by
  have hactor := actor_encode identified request
  have hread : (c.encode request).readBody = .error .tooLong := if_neg long
  rw [call_encode_eq root h]
  cases request with
  | perform id action version data =>
    generalize c.encode (.perform id action version data) = r at hactor hread ⊢
    simp only [routeOf, callOn, hactor, number_encodeSegment, Target.segmentText?_encodeSegment h.1,
      queryOf, versionOf?, Option.map_some, Option.getD_some, version?_versionQuery, hread, bind,
      Except.bind]
  | claim topic automatic =>
    have hjson : MediaType.declaresJson (c.encode (.claim topic automatic)).headers = true :=
      declaresJson_encode rfl
    generalize c.encode (.claim topic automatic) = r at hactor hjson hread ⊢
    simp only [routeOf, callOn, hactor, hjson, if_true, hread, bind, Except.bind]
  | release topic automatic =>
    generalize c.encode (.release topic automatic) = r at hactor hread ⊢
    simp only [routeOf, callOn, hactor, number_encodeSegment, hread, bind, Except.bind]
  | update id version updates =>
    have hput : "PUT" ≠ "GET" := by decide
    generalize c.encode (.update id version updates) = r at hactor hread ⊢
    simp only [routeOf, callOn, methodOf, if_neg hput, hactor, number_encodeSegment, queryOf,
      versionOf?, Option.map_some, Option.getD_some, version?_versionQuery, hread, bind,
      Except.bind]
  | fetch | list => exact absurd (Nat.zero_le _) long

end Request

end Moderation.Http
