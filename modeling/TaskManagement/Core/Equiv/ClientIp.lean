import TaskManagement.Core.ClientIp

/-!
# The address of the client cannot be chosen by the client

Behind trusted proxies the header is `front ++ a :: hops`: the proxies have appended the address `a`
of the client and then their own addresses `hops`, and `front` is whatever the client sent.
`resolveClientIp_of_front` says what the result is for every `front`, and
`resolveClientIp_unspoofed` that a client which sends addresses does not change it.
-/

namespace ClientIp

open IpAddress (Address ipAddress ipNetwork)

/-! ### Headers -/

theorem entries_append (text later : List Char) :
    entries (text ++ ',' :: later) = entries text ++ entries later := by
  rw [entries, List.splitOn_append_cons_self, List.map_append]
  rfl

theorem ipAddress_nil : ipAddress [] = none := by decide

/-- A header without text has no address. -/
theorem entries_nil : entries [] = [[]] := by decide

/-! ### Trust -/

/-- An entry that is an address. -/
def IsAddress (entry : List Char) : Prop := (ipAddress entry).isSome = true

/-- An entry that is an address in one of the networks. -/
def Trusted (cidrs : List (List Char)) (entry : List Char) : Prop :=
  ∃ address, ipAddress entry = some address ∧ isTrusted address cidrs = true

/-- An entry that is an address outside of the networks. -/
def Untrusted (cidrs : List (List Char)) (entry : List Char) : Prop :=
  ∃ address, ipAddress entry = some address ∧ isTrusted address cidrs = false

variable {cidrs : List (List Char)} {entry a : List Char} {front hops : List (List Char)}

theorem Trusted.isAddress (h : Trusted cidrs entry) : IsAddress entry := by
  obtain ⟨address, h, -⟩ := h
  rw [IsAddress, h, Option.isSome_some]

theorem Untrusted.isAddress (h : Untrusted cidrs entry) : IsAddress entry := by
  obtain ⟨address, h, -⟩ := h
  rw [IsAddress, h, Option.isSome_some]

/-- The test of `reversed(values)`. -/
theorem any_not_isTrusted_iff :
    ((ipAddress entry).any fun address => !isTrusted address cidrs) = true ↔
      Untrusted cidrs entry := by
  rw [Option.any_eq_true]
  apply exists_congr
  intro address
  rw [Bool.not_eq_true']

theorem not_untrusted (h : Trusted cidrs entry) : ¬ Untrusted cidrs entry := by
  rintro ⟨other, hother, hfalse⟩
  obtain ⟨address, haddress, htrue⟩ := h
  rw [haddress, Option.some.injEq] at hother
  rw [← hother, htrue] at hfalse
  cases hfalse

/-- The test on the peer. -/
theorem all_not_isTrusted_iff :
    ((ipAddress entry).all fun address => !isTrusted address cidrs) = true ↔
      ¬ Trusted cidrs entry := by
  rw [Option.all_eq_true, Trusted, not_exists]
  apply forall_congr'
  intro address
  rw [not_and, Bool.not_eq_true', Bool.not_eq_true]

/-- The test on the entries. -/
theorem any_not_isAddress_iff {values : List (List Char)} :
    values.any (fun value => value.isEmpty || (ipAddress value).isNone) = true ↔
      ∃ value ∈ values, ¬ IsAddress value := by
  rw [List.any_eq_true]
  apply exists_congr
  intro value
  apply and_congr_right
  intro _
  rw [Bool.or_eq_true, List.isEmpty_iff, Option.isNone_iff_eq_none, IsAddress,
    Option.not_isSome_iff_eq_none]
  constructor
  · rintro (rfl | h)
    · exact ipAddress_nil
    · exact h
  · exact Or.inr

/-! ### The rightmost untrusted entry -/

theorem find?_reverse (hhops : ∀ hop ∈ hops, Trusted cidrs hop) (ha : Untrusted cidrs a) :
    (front ++ a :: hops).reverse.find? (fun value =>
      (ipAddress value).any fun address => !isTrusted address cidrs) = some a := by
  have hnone : hops.reverse.find? (fun value =>
      (ipAddress value).any fun address => !isTrusted address cidrs) = none := by
    rw [List.find?_eq_none]
    intro hop hhop h
    exact not_untrusted (hhops hop (List.mem_reverse.1 hhop)) (any_not_isTrusted_iff.1 h)
  rw [List.reverse_append, List.reverse_cons, List.append_assoc, List.find?_append, hnone,
    Option.none_or, List.singleton_append]
  exact List.find?_cons_of_pos (any_not_isTrusted_iff.2 ha)

/-! ### `resolve_client_ip` -/

variable {request : Request} {header : List Char}

theorem resolveClientIp_of_peer (h : ¬ Trusted cidrs request.peer) :
    resolveClientIp request cidrs = ⟨request.peer, request.peer, .direct⟩ :=
  if_pos (all_not_isTrusted_iff.2 h)

/-- A header with an address has a text. -/
theorem ne_nil_of_entries (hentries : entries header = front ++ a :: hops) (ha : IsAddress a) :
    header ≠ [] := by
  rintro rfl
  have hmem : a ∈ entries [] := by
    rw [hentries]
    exact List.mem_append_right _ List.mem_cons_self
  rw [entries_nil, List.mem_singleton] at hmem
  rw [hmem, IsAddress, ipAddress_nil] at ha
  cases ha

/-- The result for every text that the client puts in front of what the proxies append. -/
theorem resolveClientIp_of_front (hpeer : Trusted cidrs request.peer)
    (hheader : request.header "x-forwarded-for".toList = some header)
    (hentries : entries header = front ++ a :: hops) (ha : Untrusted cidrs a)
    (hhops : ∀ hop ∈ hops, Trusted cidrs hop) :
    ((∀ value ∈ front, IsAddress value) →
      resolveClientIp request cidrs = ⟨a, request.peer, .trustedXff⟩) ∧
    ((∃ value ∈ front, ¬ IsAddress value) →
      resolveClientIp request cidrs = ⟨request.peer, request.peer, .direct⟩) := by
  have hne := ne_nil_of_entries hentries ha.isAddress
  rw [resolveClientIp, if_neg fun h => all_not_isTrusted_iff.1 h hpeer, hheader, Option.getD_some]
  dsimp only
  rw [hentries]
  constructor
  · intro hfront
    rw [if_neg, find?_reverse hhops ha]
    rw [or_iff_right hne, any_not_isAddress_iff]
    rintro ⟨value, hmem, hvalue⟩
    rw [List.mem_append, List.mem_cons] at hmem
    obtain hmem | rfl | hmem := hmem
    · exact hvalue (hfront value hmem)
    · exact hvalue ha.isAddress
    · exact hvalue (hhops value hmem).isAddress
  · rintro ⟨value, hmem, hvalue⟩
    apply if_pos
    right
    exact any_not_isAddress_iff.2 ⟨value, List.mem_append_left _ hmem, hvalue⟩

/-- The same for the text of a header that the client sent and the proxies continued. -/
theorem resolveClientIp_of_text {text later : List Char} (hpeer : Trusted cidrs request.peer)
    (hheader : request.header "x-forwarded-for".toList = some (text ++ ',' :: later))
    (hlater : entries later = a :: hops) (ha : Untrusted cidrs a)
    (hhops : ∀ hop ∈ hops, Trusted cidrs hop) :
    (resolveClientIp request cidrs).clientIp = a ∨
      resolveClientIp request cidrs = ⟨request.peer, request.peer, .direct⟩ := by
  have hentries : entries (text ++ ',' :: later) = entries text ++ a :: hops := by
    rw [entries_append, hlater]
  obtain ⟨hgood, hbad⟩ := resolveClientIp_of_front hpeer hheader hentries ha hhops
  by_cases hfront : ∀ value ∈ entries text, IsAddress value
  · left
    rw [hgood hfront]
  · right
    apply hbad
    by_contra h
    apply hfront
    intro value hmem
    by_contra hvalue
    exact h ⟨value, hmem, hvalue⟩

/-- The resolved address is the peer or what the trusted proxies saw, and addresses in front of it
do not change it. -/
theorem resolveClientIp_unspoofed (cidrs : List (List Char)) (request : Request) :
    (¬ Trusted cidrs request.peer →
      resolveClientIp request cidrs = ⟨request.peer, request.peer, .direct⟩) ∧
    (Trusted cidrs request.peer →
      ∀ header front a hops, request.header "x-forwarded-for".toList = some header →
        entries header = front ++ a :: hops → Untrusted cidrs a →
        (∀ hop ∈ hops, Trusted cidrs hop) →
        ((∀ value ∈ front, IsAddress value) →
          resolveClientIp request cidrs = ⟨a, request.peer, .trustedXff⟩ ∧
          ∀ request' header' front', request'.peer = request.peer →
            request'.header "x-forwarded-for".toList = some header' →
            entries header' = front' ++ a :: hops → (∀ value ∈ front', IsAddress value) →
            resolveClientIp request' cidrs = resolveClientIp request cidrs) ∧
        ((∃ value ∈ front, ¬ IsAddress value) →
          resolveClientIp request cidrs = ⟨request.peer, request.peer, .direct⟩)) := by
  refine ⟨resolveClientIp_of_peer, ?_⟩
  intro hpeer header front a hops hheader hentries ha hhops
  obtain ⟨hgood, hbad⟩ := resolveClientIp_of_front hpeer hheader hentries ha hhops
  refine ⟨?_, hbad⟩
  intro hfront
  refine ⟨hgood hfront, ?_⟩
  intro request' header' front' hpeer' hheader' hentries' hfront'
  rw [hgood hfront, ← hpeer']
  rw [← hpeer'] at hpeer
  exact (resolveClientIp_of_front hpeer hheader' hentries' ha hhops).1 hfront'

/-- A request that a proxy has passed on to the one at 10.0.0.1; the client sent the header `text`. -/
def forwardedRequest (text : String) : Request where
  client := some "10.0.0.1".toList
  headers := [("x-forwarded-for".toList, text.toList ++ ", 198.51.100.4, 10.0.0.2".toList)]

/-- A client at 198.51.100.4 that sends another address, and one that sends a text that is none. -/
theorem resolveClientIp_unspoofed_forwarded :
    resolveClientIp (forwardedRequest "203.0.113.9") ["10.0.0.0/8".toList] =
        ⟨"198.51.100.4".toList, "10.0.0.1".toList, .trustedXff⟩ ∧
      resolveClientIp (forwardedRequest "unknown") ["10.0.0.0/8".toList] =
        ⟨"10.0.0.1".toList, "10.0.0.1".toList, .direct⟩ := by
  have ha : Untrusted ["10.0.0.0/8".toList] "198.51.100.4".toList :=
    any_not_isTrusted_iff.1 (by decide)
  have hhops : ∀ hop ∈ ["10.0.0.2".toList], Trusted ["10.0.0.0/8".toList] hop := by
    intro hop hmem
    obtain rfl := List.mem_singleton.1 hmem
    exact (Option.any_eq_true _ _).1 (by decide)
  have hpeer : Trusted ["10.0.0.0/8".toList] "10.0.0.1".toList :=
    (Option.any_eq_true _ _).1 (by decide)
  constructor
  · have h := ((resolveClientIp_unspoofed ["10.0.0.0/8".toList]
      (forwardedRequest "203.0.113.9")).2 hpeer _ ["203.0.113.9".toList] _ _ rfl (by decide) ha
        hhops).1
    refine (h fun value hmem => ?_).1
    obtain rfl := List.mem_singleton.1 hmem
    show (ipAddress "203.0.113.9".toList).isSome = true
    decide
  · have h := ((resolveClientIp_unspoofed ["10.0.0.0/8".toList] (forwardedRequest "unknown")).2
      hpeer _ ["unknown".toList] _ _ rfl (by decide) ha hhops).2
    refine h ⟨_, List.mem_singleton_self _, ?_⟩
    show ¬(ipAddress "unknown".toList).isSome = true
    decide

end ClientIp
