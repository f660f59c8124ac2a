import TaskManagement.Core.Equiv.Masking
import TaskManagement.Json.Equiv.Loads

/-!
# What the history does to responses

`historyMiddleware_transparent_iff` says exactly when the client receives what the application below
produced: when `json.loads` reads the bodies that are recorded or rejects them by one of its two
documented errors, when the stack has room for the mask, and when the task is not cancelled.
`historyMiddleware_not_transparent` is a request on which the middleware raises.
-/

namespace History

open Json

variable {E : Type} {lower : Str → Str} {stack : Stack} {settings : BackendSettings}

/-! ### What a client receives -/

structure Received where
  statusCode : ℤ
  headers : List (List Char × List Char)
  body : List UInt8

/-- The octets that a response sends; its iterator may raise. -/
def Content.sent : Content E → Except E (List UInt8)
  | .body b => .ok b
  | .other b => .ok b
  | .iterator _ (some e) => .error e
  | .iterator chunks none => .ok (chunks.map Chunk.encode).flatten

def Response.sent (response : Response E) : Except E Received :=
  response.content.sent.map fun body => ⟨response.statusCode, response.headers, body⟩

/-- A response with the header of the request's identifier. -/
def Response.identified (requestId : List Char) (response : Response E) : Response E :=
  { response with headers := setDefault response.headers "x-request-id".toList requestId }

/-- The status and the body of the application below with the header, or its exception. -/
def produced (requestId : List Char) (callNext : CallNext E) : Except (Failure E) Received :=
  (callNext.result >>= fun response => (response.identified requestId).sent).mapError .below

/-- What the client receives from a result of the middleware. -/
def received (result : Except (Failure E) (Response E)) : Except (Failure E) Received :=
  result >>= fun response => response.sent.mapError .below

/-- The client receives what the application below produced. -/
def Transparent (context : Context) (saving : Saving) (request : Request) (callNext : CallNext E) :
    Prop :=
  received (historyMiddleware context saving request callNext).1 =
    produced context.requestId callNext

/-! ### Bodies -/

/-- `json.loads` returns, or raises an error that is caught. -/
def Readable (containers : ℕ) (body : List UInt8) : Prop :=
  ∀ e, loads containers body = .error e → e = .unicodeDecodeError ∨ e = .jsonDecodeError

/-- The two errors that are not caught. -/
theorem readable_iff (containers : ℕ) (body : List UInt8) :
    Readable containers body ↔ loads containers body ≠ .error .valueError ∧
      loads containers body ≠ .error .recursionError := by
  rw [Readable]
  have hfuel := loads_ne_outOfFuel containers body
  cases h : loads containers body with
  | ok v => simp
  | error e =>
    cases e with
    | outOfFuel => exact absurd h hfuel
    | _ => simp

/-- The body of a request is recorded. -/
def IsRecorded (lower : Str → Str) (settings : BackendSettings) (request : Request) : Prop :=
  request.body ≠ [] ∧ isJson lower request = true ∧
    (request.body.length : ℤ) ≤ settings.apiHistoryBodyMaxBytes

/-- The body of a request is read, and there is room to mask it. -/
def RequestReadable (lower : Str → Str) (stack : Stack) (settings : BackendSettings)
    (request : Request) : Prop :=
  IsRecorded lower settings request →
    Readable stack.containers request.body ∧
    ∀ members, loads stack.containers request.body = .ok (.obj members) →
      frames lower (.obj members) ≤ stack.frames

theorem safeBody_returns_iff (request : Request) :
    (∃ body, safeBody lower stack settings request = .ok body) ↔
      RequestReadable lower stack settings request := by
  rw [RequestReadable, safeBody]
  by_cases hplain : request.body = [] ∨ isJson lower request = false
  · rw [if_pos hplain]
    apply iff_of_true ⟨none, rfl⟩
    rintro ⟨hbody, hjson, -⟩
    obtain h | h := hplain
    · exact absurd h hbody
    · rw [h] at hjson
      cases hjson
  · rw [if_neg hplain]
    rw [not_or, Bool.not_eq_false] at hplain
    by_cases hlong : settings.apiHistoryBodyMaxBytes < request.body.length
    · rw [if_pos hlong]
      apply iff_of_true ⟨none, rfl⟩
      rintro ⟨-, -, hlength⟩
      omega
    · rw [if_neg hlong]
      have hrecorded : IsRecorded lower settings request := ⟨hplain.1, hplain.2, by omega⟩
      rw [forall_prop_of_true hrecorded, Readable]
      cases loads stack.containers request.body with
      | error e =>
        cases e <;> simp
      | ok v =>
        cases v with
        | obj members =>
          dsimp only
          rw [maskIn_eq]
          split
          · next h => simp [Except.map, h]
          · next h => simp [Except.map, h]
        | _ => simp

theorem errorFields_returns_iff (statusCode : ℤ) (body : Option (List UInt8)) :
    (∃ fields, errorFields stack statusCode body = .ok fields) ↔
      ∀ b, body = some b → 400 ≤ statusCode → Readable stack.containers b := by
  cases body with
  | none =>
    apply iff_of_true ⟨_, rfl⟩
    intro b hb
    cases hb
  | some b =>
    rw [errorFields]
    by_cases hstatus : statusCode < 400
    · rw [if_pos hstatus]
      apply iff_of_true ⟨_, rfl⟩
      intro c _ h
      omega
    · rw [if_neg hstatus]
      have hle : 400 ≤ statusCode := by omega
      simp only [Option.some.injEq, forall_eq', hle, forall_true_left, Readable]
      cases loads stack.containers b with
      | error e =>
        cases e <;> simp
      | ok v =>
        apply iff_of_true
        · cases v with
          | obj decoded =>
            dsimp only
            split
            · exact ⟨_, rfl⟩
            · exact ⟨_, rfl⟩
          | _ => exact ⟨_, rfl⟩
        · intro e h
          cases h

/-! ### The record -/

theorem bind_returns_iff {X α β γ : Type} {x : Except X α} {y : Except X β} (f : α → β → γ) :
    (∃ c, (x >>= fun a => y >>= fun b => .ok (f a b)) = .ok c) ↔
      (∃ a, x = .ok a) ∧ ∃ b, y = .ok b := by
  cases x with
  | error e =>
    apply iff_of_false
    · rintro ⟨c, h⟩
      cases h
    · rintro ⟨⟨a, h⟩, -⟩
      cases h
  | ok a =>
    cases y with
    | error e =>
      apply iff_of_false
      · rintro ⟨c, h⟩
        cases h
      · rintro ⟨-, b, h⟩
        cases h
    | ok b => exact iff_of_true ⟨_, rfl⟩ ⟨⟨a, rfl⟩, b, rfl⟩

theorem createInput_returns_iff (context : Context) (request : Request)
    (routePath : Option (List Char)) (currentUser : Option ℕ) (response : Option (Response E))
    (responseBody : Option (List UInt8)) :
    (∃ data, createInput context request routePath currentUser response responseBody = .ok data) ↔
      (∀ r, response = some r →
        ∃ fields, errorFields context.stack r.statusCode responseBody = .ok fields) ∧
      ∃ body, safeBody context.lower context.stack context.settings request = .ok body := by
  cases response with
  | none =>
    apply (bind_returns_iff _).trans
    apply and_congr_left
    intro _
    apply iff_of_true ⟨_, rfl⟩
    intro r h
    cases h
  | some response =>
    apply (bind_returns_iff _).trans
    apply and_congr_left
    intro _
    simp only [Option.some.injEq, forall_eq']

/-- The block raises nothing of the application below. -/
theorem recordHistory_ne_below (context : Context) (saving : Saving) (request : Request)
    (callNext : CallNext E) (response : Option (Response E)) (responseBody : Option (List UInt8))
    (e : E) :
    (recordHistory context saving request callNext response responseBody).1 ≠
      .error (.below e) := by
  rw [recordHistory]
  cases createInput context request callNext.routePath callNext.currentUser response
    responseBody with
  | error x =>
    intro h
    cases h
  | ok data => cases saving <;> (intro h; cases h)

theorem recordHistory_eq_ok_iff (context : Context) (saving : Saving) (request : Request)
    (callNext : CallNext E) (response : Option (Response E))
    (responseBody : Option (List UInt8)) :
    (recordHistory context saving request callNext response responseBody).1 = .ok () ↔
      (∃ data, createInput context request callNext.routePath callNext.currentUser response
        responseBody = .ok data) ∧ saving ≠ .cancelled := by
  rw [recordHistory]
  cases createInput context request callNext.routePath callNext.currentUser response
    responseBody with
  | error x => simp
  | ok data => cases saving <;> simp

/-! ### Transparency -/

/-- The octets that the middleware reads of a response. -/
def Content.read : Content E → Option (List UInt8)
  | .body b => some b
  | .iterator chunks none => some (chunks.map Chunk.encode).flatten
  | _ => none

/-- The body of an error response is read. -/
def ResponseReadable (stack : Stack) (callNext : CallNext E) : Prop :=
  ∀ response b, callNext.result = .ok response → response.content.read = some b →
    400 ≤ response.statusCode → Readable stack.containers b

/-- The chunks are replayed. -/
theorem readResponseBody_cases (response : Response E) :
    (∃ e, readResponseBody response = .error e ∧ response.content.sent = .error e ∧
      response.content.read = none) ∨
    ∃ content, readResponseBody response =
        .ok (response.content.read, { response with content := content }) ∧
      content.sent = response.content.sent := by
  obtain ⟨statusCode, headers, content⟩ := response
  cases content with
  | body b => exact Or.inr ⟨_, rfl, rfl⟩
  | other b => exact Or.inr ⟨_, rfl, rfl⟩
  | iterator chunks failure =>
    cases failure with
    | some e => exact Or.inl ⟨e, rfl, rfl, rfl⟩
    | none =>
      refine Or.inr ⟨_, rfl, ?_⟩
      have hencode : Chunk.encode ∘ Chunk.bytes = id := rfl
      rw [Content.sent, Content.sent, List.map_map, hencode, List.map_id]

/-- What follows the block is received exactly when the block returns. -/
theorem received_bind_iff {done : Except (Failure E) Unit}
    {rest : Except (Failure E) (Response E)} {p : Except E Received}
    (hdone : ∀ e, done ≠ .error (.below e)) (hrest : received rest = p.mapError .below) :
    received (done >>= fun _ => rest) = p.mapError .below ↔ done = .ok () := by
  cases done with
  | error x =>
    apply iff_of_false
    · intro h
      cases p with
      | error e =>
        cases h
        exact hdone e rfl
      | ok r => cases h
    · intro h
      cases h
  | ok u => exact iff_of_true hrest rfl

section

variable {context : Context} {saving : Saving} {request : Request} {callNext : CallNext E}

/-- The block returns when both bodies are read and the task goes on. -/
theorem recordHistory_returns_iff (response : Option (Response E))
    (responseBody : Option (List UInt8)) :
    (recordHistory context saving request callNext response responseBody).1 = .ok () ↔
      RequestReadable context.lower context.stack context.settings request ∧
      (∀ r, response = some r → ∀ b, responseBody = some b → 400 ≤ r.statusCode →
        Readable context.stack.containers b) ∧ saving ≠ .cancelled := by
  rw [recordHistory_eq_ok_iff, createInput_returns_iff, safeBody_returns_iff]
  simp only [errorFields_returns_iff]
  constructor
  · rintro ⟨⟨hresponse, hrequest⟩, hsaving⟩
    exact ⟨hrequest, hresponse, hsaving⟩
  · rintro ⟨hrequest, hresponse, hsaving⟩
    exact ⟨⟨hresponse, hrequest⟩, hsaving⟩

/-- A result that is received as `p` once the block has returned. -/
theorem received_recordHistory_iff {response : Option (Response E)}
    {responseBody : Option (List UInt8)} {rest : Except (Failure E) (Response E)}
    {p : Except E Received} {readable : Prop} (hrest : received rest = p.mapError .below)
    (hreadable : (∀ r, response = some r → ∀ b, responseBody = some b → 400 ≤ r.statusCode →
      Readable context.stack.containers b) ↔ readable) :
    received ((recordHistory context saving request callNext response responseBody).1 >>=
        fun _ => rest) = p.mapError .below ↔
      RequestReadable context.lower context.stack context.settings request ∧
      readable ∧ saving ≠ .cancelled := by
  rw [received_bind_iff (recordHistory_ne_below _ _ _ _ _ _) hrest, recordHistory_returns_iff,
    hreadable]

theorem historyMiddleware_of_error {e : E} (hapi : isApi request = true)
    (hresult : callNext.result = .error e) :
    (historyMiddleware context saving request callNext).1 =
      (recordHistory context saving request callNext none none).1 >>=
        fun _ => .error (.below e) := by
  rw [historyMiddleware, if_neg (by rw [hapi]; decide), hresult]
  rfl

theorem historyMiddleware_of_failure {response : Response E} {e : E} (hapi : isApi request = true)
    (hresult : callNext.result = .ok response) (hread : readResponseBody response = .error e) :
    (historyMiddleware context saving request callNext).1 =
      (recordHistory context saving request callNext (some response) none).1 >>=
        fun _ => .error (.below e) := by
  rw [historyMiddleware, if_neg (by rw [hapi]; decide), hresult]
  dsimp only
  rw [hread]
  rfl

theorem historyMiddleware_of_ok {response replayed : Response E} {body : Option (List UInt8)}
    (hapi : isApi request = true) (hresult : callNext.result = .ok response)
    (hread : readResponseBody response = .ok (body, replayed)) :
    (historyMiddleware context saving request callNext).1 =
      (recordHistory context saving request callNext (some replayed) body).1 >>=
        fun _ => .ok (replayed.identified context.requestId) := by
  rw [historyMiddleware, if_neg (by rw [hapi]; decide), hresult]
  dsimp only
  rw [hread]
  rfl

theorem transparent_iff (hapi : isApi request = true) :
    Transparent context saving request callNext ↔
      RequestReadable context.lower context.stack context.settings request ∧
      ResponseReadable context.stack callNext ∧ saving ≠ .cancelled := by
  rw [Transparent, produced, ResponseReadable]
  cases hresult : callNext.result with
  | error e =>
    rw [historyMiddleware_of_error hapi hresult]
    have hrest : received (.error (.below e) : Except (Failure E) (Response E)) =
        (Except.error e : Except E Received).mapError .below := rfl
    apply received_recordHistory_iff hrest
    apply iff_of_true
    · intro r h
      cases h
    · intro r b h
      cases h
  | ok response =>
    obtain ⟨e, hread, hsent, hnone⟩ | ⟨content, hread, hsent⟩ := readResponseBody_cases response
    · rw [historyMiddleware_of_failure hapi hresult hread]
      have hrest : received (.error (.below e) : Except (Failure E) (Response E)) =
          (response.identified context.requestId).sent.mapError .below := by
        rw [Response.sent, Response.identified, hsent]
        rfl
      -- the body of the response raises while it is read
      apply received_recordHistory_iff hrest
      apply iff_of_true
      · intro r _ b h
        cases h
      · intro r b h hb
        cases h
        rw [hnone] at hb
        cases hb
    · rw [historyMiddleware_of_ok hapi hresult hread]
      have hrest : received (.ok (Response.identified context.requestId
            { response with content := content }) : Except (Failure E) (Response E)) =
          (response.identified context.requestId).sent.mapError .below := by
        show (Response.sent _).mapError Failure.below = _
        rw [Response.sent, Response.sent, Response.identified, Response.identified, hsent]
      -- the body is read, and replayed to the client
      apply received_recordHistory_iff hrest
      constructor
      · intro h r b hr hb
        cases hr
        exact h _ rfl b hb
      · intro h r hr b hb
        cases hr
        exact h response b rfl hb

end

/-! ### The main result -/

/-- The middleware leaves the response as it is, and `_safe_body` and `_error_fields` return,
exactly if both bodies are read and the task is not cancelled while the record is saved. -/
theorem historyMiddleware_transparent_iff (context : Context) (saving : Saving) (request : Request)
    (callNext : CallNext E) (hapi : isApi request = true) :
    (Transparent context saving request callNext ∧
      (∃ body, safeBody context.lower context.stack context.settings request = .ok body) ∧
      ∀ response b, callNext.result = .ok response → response.content.read = some b →
        ∃ fields, errorFields context.stack response.statusCode (some b) = .ok fields) ↔
    RequestReadable context.lower context.stack context.settings request ∧
      ResponseReadable context.stack callNext ∧ saving ≠ .cancelled := by
  rw [transparent_iff hapi, safeBody_returns_iff]
  constructor
  · rintro ⟨h, -⟩
    exact h
  · intro h
    refine ⟨h, h.1, ?_⟩
    intro response b hresult hread
    rw [errorFields_returns_iff]
    intro c hc
    cases hc
    exact h.2.1 response b hresult hread

/-! ### A body that `json.loads` refuses -/

theorem decodeUtf8_replicate (n : ℕ) :
    decodeUtf8 (List.replicate n 49) = some (List.replicate n 49) := by
  induction n with
  | zero => rfl
  | succ n ih =>
    rw [List.replicate_succ, decodeUtf8.eq_def]
    dsimp only
    rw [if_pos (by decide), ih]
    rfl

theorem decode_replicate (n : ℕ) :
    decode (List.replicate (n + 4) 49) = some (List.replicate (n + 4) 49) :=
  decodeUtf8_replicate (n + 4)

theorem span_replicate (n : ℕ) :
    (List.replicate n 49).span isDigit = (List.replicate n 49, []) := by
  rw [List.span_eq_takeWhile_dropWhile, List.takeWhile_replicate, List.dropWhile_replicate]
  rfl

theorem scanDigits_replicate (n : ℕ) :
    scanDigits (List.replicate (n + 1) 49) = .ok (List.replicate (n + 1) 49, []) := by
  rw [scanDigits.eq_def]
  split
  · next h =>
    rw [List.replicate_succ] at h
    exact absurd (List.cons.inj h).1 (by decide)
  · rw [span_replicate, List.replicate_succ]

theorem scanOnce_replicate (depth n : ℕ) (hn : 4300 < n + 1) :
    scanOnce depth (List.replicate (n + 1) 49) = .error .valueError := by
  have hatom : scanOnce depth (List.replicate (n + 1) 49) =
      scanUnsigned false (List.replicate (n + 1) 49) := by
    cases depth with
    | zero => rfl
    | succ depth => rfl
  rw [hatom, scanUnsigned, scanDigits_replicate]
  show (if 4300 < (List.replicate (n + 1) 49).length then _ else _) = _
  rw [List.length_replicate, if_pos hn]
  rfl

/-- An integer of more than 4300 digits is no value, and no `JSONDecodeError` either. -/
theorem loads_replicate (depth n : ℕ) (hn : 4300 < n + 4) :
    loads depth (List.replicate (n + 4) 0x31) = .error .valueError := by
  have hskip : skip (List.replicate (n + 4) 49) = List.replicate (n + 4) 49 := rfl
  have hmap : (List.replicate (n + 4) (0x31 : UInt8)).map UInt8.toNat =
      List.replicate (n + 4) 49 := by
    rw [List.map_replicate]
    rfl
  rw [loads, hmap, decode_replicate]
  dsimp only
  rw [hskip, scanOnce_replicate depth (n + 3) hn]
  rfl

/-- A request with 4301 digits as its body. -/
def digitsRequest : Request where
  client := none
  headers := [("content-type".toList, "application/json".toList)]
  method := "GET".toList
  urlPath := "/api/v1/tasks".toList
  body := List.replicate 4301 0x31

def emptyResponse : CallNext Unit where
  result := .ok ⟨200, [], .body []⟩
  routePath := none
  currentUser := none

def plainContext : Context where
  lower := id
  stack := ⟨1000, 1000⟩
  settings := ⟨65536, 4000, []⟩
  requestId := "id".toList
  elapsedMs := 0

theorem isRecorded_digitsRequest :
    IsRecorded id plainContext.settings digitsRequest := by
  refine ⟨List.cons_ne_nil _ _, by decide, ?_⟩
  rw [digitsRequest, List.length_replicate]
  decide

/-- The response of the application does not reach the client. -/
theorem historyMiddleware_not_transparent :
    ¬ (isApi digitsRequest = true →
      Transparent plainContext .stored digitsRequest emptyResponse) := by
  intro h
  have hapi : isApi digitsRequest = true := by decide
  obtain ⟨hrequest, -⟩ := (transparent_iff hapi).1 (h hapi)
  obtain ⟨hreadable, -⟩ := hrequest isRecorded_digitsRequest
  have hloads := loads_replicate plainContext.stack.containers 4297 (by decide)
  exact ((readable_iff _ _).1 hreadable).1 hloads

/-! ### A nested body and an error response, as an example -/

/-- The body is read, and there is room to mask it. -/
def fits (stack : Stack) (body : List UInt8) : Bool :=
  match loads stack.containers body with
  | .ok (.obj members) => decide (frames id (.obj members) ≤ stack.frames)
  | .ok _ => true
  | .error e => e == .unicodeDecodeError || e == .jsonDecodeError

theorem readable_of_fits {body : List UInt8} (h : fits stack body = true) :
    Readable stack.containers body ∧ ∀ members, loads stack.containers body = .ok (.obj members) →
      frames id (.obj members) ≤ stack.frames := by
  rw [fits] at h
  constructor
  · intro e he
    rw [he] at h
    rwa [Bool.or_eq_true, beq_iff_eq, beq_iff_eq] at h
  · intro members hmembers
    rw [hmembers] at h
    exact of_decide_eq_true h

def octets (s : String) : List UInt8 := (str s).map UInt8.ofNat

/-- A request whose body is recorded, with a password in it. -/
def nestedRequest : Request where
  client := none
  headers := [("content-type".toList, "application/json".toList)]
  method := "POST".toList
  urlPath := "/api/v1/tasks".toList
  body := octets "\x7b\"user\": \x7b\"password\": \"x\", \"tags\": [1]\x7d\x7d"

/-- A response in two chunks that says that there is no task. -/
def notFoundResponse : CallNext Unit where
  result := .ok ⟨404, [], .iterator [.bytes (octets "\x7b\"error\": \x7b\"code\": "),
    .text "\"NOT_FOUND\"\x7d\x7d".toList] none⟩
  routePath := none
  currentUser := none

theorem historyMiddleware_transparent_nested :
    Transparent plainContext .failed nestedRequest notFoundResponse ∧
      ∃ body, safeBody id plainContext.stack plainContext.settings nestedRequest = .ok body := by
  have h := (historyMiddleware_transparent_iff plainContext .failed nestedRequest notFoundResponse
    (by decide)).2 ⟨?_, ?_, by decide⟩
  · exact ⟨h.1, h.2.1⟩
  · intro _
    have hfits : fits plainContext.stack nestedRequest.body = true := by decide +kernel
    exact readable_of_fits hfits
  · intro response b hresult hread _
    cases hresult
    obtain rfl := Option.some.inj hread
    have hfits : fits plainContext.stack
        (octets "\x7b\"error\": \x7b\"code\": \"NOT_FOUND\"\x7d\x7d") = true := by decide +kernel
    exact (readable_of_fits hfits).1

end History
