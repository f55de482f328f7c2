import NybergRueppel.Exchange.Request
import NybergRueppel.Proofs.Parameters.Json

/-!
Objects, requests and answers that are written and read back. The tag of an object stands among its
members and is taken off before its fields are read; a field that is null or left out is absent.
-/
namespace NybergRueppel

open JsonNumeral (wordLimit)

namespace Json

theorem isSound_ofTexts (texts : List String) : (ofTexts texts).isSound = true := by
  rw [ofTexts, isSound]
  induction texts with
  | nil => rfl
  | cons text texts ih =>
      rw [List.map_cons, allSound, ih]
      rfl

theorem depth_ofTexts (texts : List String) : (ofTexts texts).depth = 1 := by
  rw [ofTexts, depth]
  induction texts with
  | nil => rfl
  | cons text texts ih =>
      have hText : (Json.string text).depth = 0 := rfl
      rw [List.map_cons, depthOfElements, hText, Nat.zero_max]
      exact ih

theorem isSound_ofNat {v : Nat} (h : v < wordLimit) : (ofNat v).isSound = true :=
  JsonNumeral.isFinite_ofNat h

end Json

namespace SentObject

/-- The natural numbers of an object fit into one word. -/
def HasWordSizes : SentObject → Prop
  | .number sent => ∀ room ∈ sent.room, room < wordLimit
  | .point sent => sent.elementLength < wordLimit

theorem isWellFormed_toJson (sent : SentObject) : sent.toJson.IsWellFormed := by
  cases sent with
  | number sent =>
      obtain ⟨value, room⟩ := sent
      apply Json.isWellFormed_ofMembers
      cases room <;> simp [Json.IsWellFormed, Json.isWellFormed_ofNat]
  | point sent =>
      apply Json.isWellFormed_ofMembers
      simp [Json.IsWellFormed, Json.isWellFormed_ofNat, Json.isWellFormed_ofTexts]

/-- The members of a number after its tag. -/
def numberFields (sent : SentNumber) : List (String × Json) :=
  ("value", .string sent.value) :: match sent.room with
    | none => []
    | some room => [("room", Json.ofNat room)]

/-- The members of a point after its tag. -/
def pointFields (sent : SentPoint) : List (String × Json) :=
  [("element_len", Json.ofNat sent.elementLength), ("x", Json.ofTexts sent.x),
    ("y", Json.ofTexts sent.y)]

theorem number?_numberFields {sent : SentNumber} (h : (number sent).HasWordSizes) :
    number? (Json.ofMembers (numberFields sent)) = some (.number sent) := by
  obtain ⟨value, room⟩ := sent
  cases room with
  | none =>
      rw [number?, numberFields, Json.fields?_ofMembers (by simp)]
      simp [List.lookup_cons, Json.required, Json.optional, Json.text?]
  | some room =>
      have hRoom : Json.optional Json.natural? (some (Json.ofNat room)) = some (some room) := by
        change (Json.ofNat room).natural?.map some = _
        rw [Json.natural?_ofNat (h room rfl)]
        rfl
      rw [number?, numberFields, Json.fields?_ofMembers (by simp)]
      simp [List.lookup_cons, Json.required, hRoom, Json.text?]

theorem point?_pointFields {sent : SentPoint} (h : (point sent).HasWordSizes) :
    point? (Json.ofMembers (pointFields sent)) = some (.point sent) := by
  rw [point?, pointFields, Json.fields?_ofMembers (by simp)]
  simp [List.lookup_cons, Json.required, Json.natural?_ofNat h, Json.texts?_ofTexts]

/-- The tag is found among the members and taken off. -/
theorem ofJson?_tagged {tag : String} {fields : List (String × Json)}
    (hNames : ("type" :: fields.map Prod.fst).Nodup)
    (hSound : (Json.ofMembers (("type", .string tag) :: fields)).isSound = true)
    (hDepth : (Json.ofMembers (("type", .string tag) :: fields)).depth ≤ maxDepth) :
    ofJson? (Json.ofMembers (("type", .string tag) :: fields)) =
      ofTagged? (.string tag) (Json.ofMembers fields) := by
  have hDistinct : ((("type", Json.string tag) :: fields).map Prod.fst).Nodup := hNames
  have hTag : Json.member? ((("type", .string tag) :: fields).map Json.named) "type" =
      some (some (.string tag)) := by
    rw [Json.member?_map_named hDistinct, List.lookup_cons_self]
  have hFields : ((("type", .string tag) :: fields).map Json.named).filter
      (fun entry => entry.1 != some "type") = fields.map Json.named := by
    rw [List.map_cons, List.filter_cons_of_neg (by simp [Json.named]), List.filter_eq_self]
    intro entry hEntry
    obtain ⟨field, hField, rfl⟩ := List.mem_map.mp hEntry
    rw [bne_iff_ne]
    intro hName
    rw [← Option.some.inj hName] at hNames
    exact (List.nodup_cons.mp hNames).1 (List.mem_map_of_mem hField)
  rw [Json.ofMembers_eq] at hSound hDepth ⊢
  rw [ofJson?, hSound, decide_eq_true hDepth, if_pos (Bool.and_self true), hTag, hFields]
  rfl

theorem toJson_number (sent : SentNumber) :
    toJson (.number sent) = Json.ofMembers (("type", .string numberTag) :: numberFields sent) :=
  rfl

theorem toJson_point (sent : SentPoint) :
    toJson (.point sent) = Json.ofMembers (("type", .string pointTag) :: pointFields sent) :=
  rfl

/-- An object is read from its value: what it holds is sound, and it is not deep. -/
theorem ofJson?_toJson {sent : SentObject} (h : sent.HasWordSizes) :
    ofJson? sent.toJson = some sent := by
  cases sent with
  | number sent =>
      rw [toJson_number, ofJson?_tagged, ofTagged?, Json.text?]
      · exact number?_numberFields h
      · obtain ⟨value, room⟩ := sent
        cases room <;> simp [numberFields]
      · obtain ⟨value, room⟩ := sent
        cases room with
        | none => simp [numberFields, Json.ofMembers, Json.isSound, Json.allMembersSound]
        | some room =>
            have hRoom := Json.isSound_ofNat (h room rfl)
            simp [numberFields, Json.ofMembers, Json.isSound, Json.allMembersSound, hRoom]
      · obtain ⟨value, room⟩ := sent
        cases room <;> simp [numberFields, Json.ofMembers, Json.depth, Json.depthOfMembers,
          Json.ofNat, maxDepth]
  | point sent =>
      rw [toJson_point, ofJson?_tagged, ofTagged?, Json.text?]
      · exact point?_pointFields h
      · simp [pointFields]
      · simp [pointFields, Json.ofMembers, Json.isSound, Json.allMembersSound,
          Json.isSound_ofNat h, Json.isSound_ofTexts]
      · simp [pointFields, Json.ofMembers, Json.depth, Json.depthOfMembers, Json.ofNat,
          Json.depth_ofTexts, maxDepth]

/-- An object that may be absent is written as null where it is. -/
theorem optional_optionToJson {object : Option SentObject}
    (h : ∀ sent ∈ object, sent.HasWordSizes) :
    Json.optional ofJson? (some (optionToJson object)) = some object := by
  cases object with
  | none => rfl
  | some sent =>
      have hRead := ofJson?_toJson (h sent rfl)
      cases sent with
      | number sent =>
          change (ofJson? (toJson (.number sent))).map some = _
          rw [hRead]
          rfl
      | point sent =>
          change (ofJson? (toJson (.point sent))).map some = _
          rw [hRead]
          rfl

theorem isWellFormed_optionToJson (object : Option SentObject) :
    (optionToJson object).IsWellFormed := by
  cases object with
  | none => trivial
  | some sent => exact sent.isWellFormed_toJson

end SentObject

namespace SignRequest

def HasWordSizes (request : SignRequest) : Prop :=
  ∀ object ∈ [request.message, request.key, request.nonce, request.c, request.d],
    ∀ sent ∈ object, sent.HasWordSizes

theorem ofJson?_toJson {request : SignRequest} (h : request.HasWordSizes) :
    ofJson? request.toJson = some request := by
  simp only [HasWordSizes, List.forall_mem_cons] at h
  obtain ⟨hMessage, hKey, hNonce, hc, hd, -⟩ := h
  rw [toJson, ofJson?, Json.fields?_ofMembers (by simp)]
  simp [List.lookup_cons, SentObject.optional_optionToJson hMessage,
    SentObject.optional_optionToJson hKey, SentObject.optional_optionToJson hNonce,
    SentObject.optional_optionToJson hc, SentObject.optional_optionToJson hd]

theorem isWellFormed_toJson (request : SignRequest) : request.toJson.IsWellFormed := by
  apply Json.isWellFormed_ofMembers
  simp [SentObject.isWellFormed_optionToJson]

end SignRequest

namespace VerifyRequest

def HasWordSizes (request : VerifyRequest) : Prop :=
  ∀ object ∈ [request.message, request.key, request.c, request.d],
    ∀ sent ∈ object, sent.HasWordSizes

theorem ofJson?_toJson {request : VerifyRequest} (h : request.HasWordSizes) :
    ofJson? request.toJson = some request := by
  simp only [HasWordSizes, List.forall_mem_cons] at h
  obtain ⟨hMessage, hKey, hc, hd, -⟩ := h
  rw [toJson, ofJson?, Json.fields?_ofMembers (by simp)]
  simp [List.lookup_cons, SentObject.optional_optionToJson hMessage,
    SentObject.optional_optionToJson hKey, SentObject.optional_optionToJson hc,
    SentObject.optional_optionToJson hd]

theorem isWellFormed_toJson (request : VerifyRequest) : request.toJson.IsWellFormed := by
  apply Json.isWellFormed_ofMembers
  simp [SentObject.isWellFormed_optionToJson]

end VerifyRequest

namespace SignResponse

def HasWordSizes (response : SignResponse) : Prop :=
  response.c.HasWordSizes ∧ response.d.HasWordSizes

theorem ofJson?_toJson {response : SignResponse} (h : response.HasWordSizes) :
    ofJson? response.toJson = some response := by
  rw [toJson, ofJson?, Json.fields?_ofMembers (by simp)]
  simp [List.lookup_cons, Json.required, SentObject.ofJson?_toJson h.1,
    SentObject.ofJson?_toJson h.2]

theorem isWellFormed_toJson (response : SignResponse) : response.toJson.IsWellFormed := by
  apply Json.isWellFormed_ofMembers
  simp [SentObject.isWellFormed_toJson]

end SignResponse

namespace VerifyResponse

theorem ofJson?_toJson (response : VerifyResponse) : ofJson? response.toJson = some response := by
  obtain ⟨result⟩ := response
  cases result <;> rfl

theorem isWellFormed_toJson (response : VerifyResponse) : response.toJson.IsWellFormed := by
  apply Json.isWellFormed_ofMembers
  simp [Json.IsWellFormed]

end VerifyResponse

/-- Reading undoes writing for every format: a parameter set is read from its text, and an object, a
request or an answer from each of the texts of its value, where the natural numbers that it holds
are those of one word. -/
theorem formats_round_trip :
    (∀ p : DomainParameters, DomainParameters.ofText p.toText = .ok p) ∧
    (∀ sent : SentObject, sent.HasWordSizes → ∀ text ∈ sent.toJson.writtenTexts,
      (Json.read? text).bind SentObject.ofJson? = some sent) ∧
    (∀ request : SignRequest, request.HasWordSizes → ∀ text ∈ request.toJson.writtenTexts,
      (Json.read? text).bind SignRequest.ofJson? = some request) ∧
    (∀ request : VerifyRequest, request.HasWordSizes → ∀ text ∈ request.toJson.writtenTexts,
      (Json.read? text).bind VerifyRequest.ofJson? = some request) ∧
    (∀ response : SignResponse, response.HasWordSizes → ∀ text ∈ response.toJson.writtenTexts,
      (Json.read? text).bind SignResponse.ofJson? = some response) ∧
    (∀ response : VerifyResponse, ∀ text ∈ response.toJson.writtenTexts,
      (Json.read? text).bind VerifyResponse.ofJson? = some response) := by
  refine ⟨DomainParameters.ofText_toText, ?_, ?_, ?_, ?_, ?_⟩
  · intro sent h text hText
    rw [Json.read?_of_mem_writtenTexts sent.isWellFormed_toJson hText, Option.bind_some,
      SentObject.ofJson?_toJson h]
  · intro request h text hText
    rw [Json.read?_of_mem_writtenTexts request.isWellFormed_toJson hText, Option.bind_some,
      SignRequest.ofJson?_toJson h]
  · intro request h text hText
    rw [Json.read?_of_mem_writtenTexts request.isWellFormed_toJson hText, Option.bind_some,
      VerifyRequest.ofJson?_toJson h]
  · intro response h text hText
    rw [Json.read?_of_mem_writtenTexts response.isWellFormed_toJson hText, Option.bind_some,
      SignResponse.ofJson?_toJson h]
  · intro response text hText
    rw [Json.read?_of_mem_writtenTexts response.isWellFormed_toJson hText, Option.bind_some,
      VerifyResponse.ofJson?_toJson]

/-- A number with characters that have to be escaped and the largest room there is. -/
def roomyNumber : SentObject :=
  .number { value := "\x22\x00\x5c", room := some (2 ^ 64 - 1) }

/-- A point without coefficients in one coordinate. -/
def raggedPoint : SentObject :=
  .point { elementLength := 0, x := [], y := ["", "1"] }

theorem formats_round_trip_roomyNumber :
    let extension : DomainParameters := { DomainParameters.p256 with
      extension := some [], a := .extension [], b := .prime "" }
    let signing : SignRequest := ⟨some roomyNumber, none, some raggedPoint, none, none⟩
    let verifying : VerifyRequest := ⟨none, some raggedPoint, some roomyNumber, none⟩
    DomainParameters.ofText extension.toText = .ok extension ∧
    (Json.read? roomyNumber.toJson.compactText).bind SentObject.ofJson? = some roomyNumber ∧
    (Json.read? signing.toJson.compactText).bind SignRequest.ofJson? = some signing ∧
    (Json.read? verifying.toJson.indentedText).bind VerifyRequest.ofJson? = some verifying ∧
    (Json.read? (SignResponse.toJson ⟨roomyNumber, raggedPoint⟩).compactText).bind
      SignResponse.ofJson? = some ⟨roomyNumber, raggedPoint⟩ := by
  intro extension signing verifying
  obtain ⟨hParameters, hObject, hSigning, hVerifying, hSigned, -⟩ := formats_round_trip
  have hNumber : roomyNumber.HasWordSizes := by
    rintro room ⟨⟩
    decide +kernel
  have hPoint : raggedPoint.HasWordSizes := by
    change 0 < wordLimit
    decide +kernel
  refine ⟨hParameters extension, hObject _ hNumber _ (.head _), hSigning _ ?_ _ (.head _),
    hVerifying _ ?_ _ (.tail _ (.head _)), hSigned _ ⟨hNumber, hPoint⟩ _ (.head _)⟩
  · simp [SignRequest.HasWordSizes, signing, hNumber, hPoint]
  · simp [VerifyRequest.HasWordSizes, verifying, hNumber, hPoint]

end NybergRueppel
