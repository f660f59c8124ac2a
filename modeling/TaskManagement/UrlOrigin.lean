import TaskManagement.Urllib
import TaskManagement.WebUrl

/-!
# The origin that `urlsplit` reads

`urlsplit` and the URL parser of the WHATWG do not agree on every URL: only the latter reads a
backslash as a slash, and only the former keeps the spaces at the end.  Where the scheme and the
authority that `urlsplit` returns are themselves the text of an origin, they are the origin of the
whole URL (`resolve_eq_of_urlsplit`).
-/

namespace UrlOrigin

open Urllib (ValueError SplitResult urlsplit splitScheme splitNetloc stripped isSchemeChar)
open WebUrl (Scheme clean deleteTabs stripEnd schemeOf scanScheme authorityText isSlash resolve)

variable {url s t : List Char}

/-! ### What is stripped -/

/-- What is stripped at the end are controls and spaces. -/
theorem exists_stripEnd_append (s : List Char) :
    ∃ t, s = stripEnd s ++ t ∧ ∀ c ∈ t, WebUrl.isC0OrSpace c = true := by
  induction s with
  | nil => exact ⟨[], rfl, fun c hc => absurd hc List.not_mem_nil⟩
  | cons c cs ih =>
    obtain ⟨t, ht, hspace⟩ := ih
    rw [stripEnd]
    cases hs : stripEnd cs with
    | cons d ds =>
      refine ⟨t, ?_, hspace⟩
      show c :: cs = c :: (d :: ds ++ t)
      rw [← hs, ← ht]
    | nil =>
      rw [hs, List.nil_append] at ht
      by_cases hc : WebUrl.isC0OrSpace c = true
      · refine ⟨c :: t, ?_, fun x hx => ?_⟩
        · show c :: cs = (if WebUrl.isC0OrSpace c then [] else [c]) ++ c :: t
          rw [if_pos hc, ht, List.nil_append]
        · rcases List.mem_cons.mp hx with rfl | hx
          · exact hc
          · exact hspace x hx
      · refine ⟨t, ?_, hspace⟩
        show c :: cs = (if WebUrl.isC0OrSpace c then [] else [c]) ++ t
        rw [if_neg hc, ht]
        rfl

/-- `urlsplit` only keeps the controls and spaces at the end. -/
theorem exists_clean_append (url : List Char) :
    ∃ t, stripped url = clean url ++ t ∧ ∀ c ∈ t, WebUrl.isC0OrSpace c = true := by
  have htab : ∀ c, (!Urllib.isUnsafe c) = !WebUrl.isTabOrNewline c := by
    intro c
    unfold Urllib.isUnsafe WebUrl.isTabOrNewline
    cases c == '\t' <;> cases c == '\r' <;> cases c == '\n' <;> rfl
  obtain ⟨t, ht, hspace⟩ := exists_stripEnd_append (url.dropWhile WebUrl.isC0OrSpace)
  refine ⟨deleteTabs t, ?_, fun c hc => hspace c (List.mem_filter.mp hc).1⟩
  unfold stripped clean deleteTabs
  rw [← List.filter_append, ← ht]
  simp only [htab]
  rfl

/-- A text that nothing is stripped from does not end with a space. -/
theorem isC0OrSpace_of_clean {o : List Char} {c : Char} (h : clean (o ++ [c]) = o ++ [c]) :
    WebUrl.isC0OrSpace c = false := by
  by_contra hc
  have hc : WebUrl.isC0OrSpace c = true := Bool.not_eq_false _ ▸ hc
  have hstrip : ∀ l : List Char, (stripEnd (l ++ [c])).length ≤ l.length := by
    intro l
    induction l with
    | nil =>
      show (if WebUrl.isC0OrSpace c then [] else [c]).length ≤ 0
      rw [if_pos hc]
      rfl
    | cons d l ih =>
      rw [List.cons_append, stripEnd]
      cases hs : stripEnd (l ++ [c]) with
      | nil =>
        show (if WebUrl.isC0OrSpace d then [] else [d]).length ≤ (d :: l).length
        split_ifs <;> simp
      | cons x xs =>
        rw [hs] at ih
        simpa using ih
  have hle : (clean (o ++ [c])).length ≤ o.length := by
    unfold clean deleteTabs
    refine (List.length_filter_le _ _).trans ?_
    rw [List.dropWhile_append]
    split_ifs with hempty
    · rw [List.dropWhile_cons_of_pos hc]
      exact Nat.zero_le _
    · exact (hstrip _).trans (List.dropWhile_sublist _).length_le
  rw [h] at hle
  simp at hle

/-! ### Schemes -/

theorem isSchemeChar_ne_colon {c : Char} (h : isSchemeChar c = true) : c ≠ ':' := by
  rintro rfl
  cases h

theorem isUpper_iff {c : Char} : c.isUpper = true ↔ 65 ≤ c.toNat ∧ c.toNat ≤ 90 :=
  decide_eq_true_iff

theorem isLower_iff {c : Char} : c.isLower = true ↔ 97 ≤ c.toNat ∧ c.toNat ≤ 122 := by
  show (decide (97 ≤ c.toNat) && decide (c.toNat ≤ 122)) = true ↔ _
  rw [Bool.and_eq_true, decide_eq_true_iff, decide_eq_true_iff]

theorem isAlpha_iff {c : Char} : c.isAlpha = true ↔ c.isUpper = true ∨ c.isLower = true :=
  Bool.or_eq_true_iff

theorem toLower_of_not_isUpper {c : Char} (h : ¬c.isUpper = true) : c.toLower = c := by
  unfold Char.toLower
  exact dif_neg fun hc => h (decide_eq_true hc)

theorem isLower_toLower {c : Char} (h : c.isUpper = true) : c.toLower.isLower = true := by
  have hall : ∀ n < 26, (Char.ofNat (65 + n)).toLower.isLower = true := by decide
  obtain ⟨hle, hge⟩ := isUpper_iff.mp h
  have hc : Char.ofNat (65 + (c.toNat - 65)) = c := by
    rw [Nat.add_sub_cancel' hle, Char.ofNat_toNat]
  rw [← hc]
  exact hall _ (by omega)

theorem toLower_toLower (c : Char) : c.toLower.toLower = c.toLower := by
  by_cases hu : c.isUpper = true
  · refine toLower_of_not_isUpper fun h => ?_
    have hl := isLower_iff.mp (isLower_toLower hu)
    have hh := isUpper_iff.mp h
    omega
  · rw [toLower_of_not_isUpper hu, toLower_of_not_isUpper hu]

theorem isAlpha_toLower {c : Char} (h : c.isAlpha = true) : c.toLower.isAlpha = true := by
  by_cases hu : c.isUpper = true
  · exact isAlpha_iff.mpr (Or.inr (isLower_toLower hu))
  · rwa [toLower_of_not_isUpper hu]

theorem isSchemeChar_toLower {c : Char} (h : isSchemeChar c = true) :
    isSchemeChar c.toLower = true := by
  by_cases hu : c.isUpper = true
  · have halpha : c.toLower.isAlpha = true := isAlpha_iff.mpr (Or.inr (isLower_toLower hu))
    unfold isSchemeChar Char.isAlphanum
    rw [halpha]
    rfl
  · rwa [toLower_of_not_isUpper hu]

/-- The scheme before a colon. -/
theorem scanScheme_append {name : List Char} (h : ∀ c ∈ name, isSchemeChar c = true)
    (rest : List Char) :
    scanScheme (name ++ ':' :: rest) = some (name.map Char.toLower, rest) := by
  induction name with
  | nil => rfl
  | cons c name ih =>
    have hc : isSchemeChar c = true := h c List.mem_cons_self
    have hscan := ih fun d hd => h d (List.mem_cons_of_mem c hd)
    unfold isSchemeChar at hc
    rw [List.cons_append, scanScheme, if_neg (isSchemeChar_ne_colon hc), if_pos hc, hscan]
    rfl

theorem schemeOf_append {name : List Char} (hhead : name.head?.any Char.isAlpha = true)
    (h : ∀ c ∈ name, isSchemeChar c = true) (rest : List Char) :
    schemeOf (name ++ ':' :: rest) = some (String.ofList (name.map Char.toLower), rest) := by
  cases name with
  | nil => cases hhead
  | cons c name =>
    have halpha : c.isAlpha = true := hhead
    rw [List.cons_append, schemeOf, if_pos halpha,
      scanScheme_append (fun d hd => h d (List.mem_cons_of_mem c hd)) rest]
    rfl

/-- The scheme that `urlsplit` reads. -/
theorem exists_of_splitScheme {scheme rest : List Char} (h : splitScheme s = (scheme, rest))
    (hne : scheme ≠ []) :
    ∃ name, s = name ++ ':' :: rest ∧ scheme = name.map Char.toLower ∧
      name.head?.any Char.isAlpha = true ∧ ∀ c ∈ name, isSchemeChar c = true := by
  unfold splitScheme at h
  split at h
  · rename_i name c rest' hspan
    split_ifs at h with hif
    · obtain ⟨rfl, rfl⟩ := Prod.mk.inj h
      rw [Bool.and_eq_true, List.all_eq_true] at hif
      rw [List.span_eq_takeWhile_dropWhile] at hspan
      obtain ⟨htake, hdrop⟩ := Prod.mk.inj hspan
      have hcolon : c = ':' := by
        have hhead := List.head?_dropWhile_not (fun c => decide (c ≠ ':')) s
        rw [hdrop] at hhead
        simpa using hhead
      refine ⟨name, ?_, rfl, hif.1, hif.2⟩
      rw [← hcolon, ← htake, ← hdrop, List.takeWhile_append_dropWhile]
    · exact absurd (Prod.mk.inj h).1.symm hne
  · exact absurd (Prod.mk.inj h).1.symm hne

/-! ### Authorities -/

/-- A delimiter ends an authority for both parsers. -/
def IsTail (tail : List Char) : Prop := ∀ c ∈ tail.head?, c = '/' ∨ c = '?' ∨ c = '#'

/-- The parts of a URL for which `urlsplit` returns a scheme and an authority. -/
theorem exists_of_urlsplit {nfkc : List Char → List Char} {r : SplitResult}
    (h : urlsplit nfkc url = .ok r) (hscheme : r.scheme ≠ []) (hnetloc : r.netloc ≠ []) :
    ∃ name netloc tail, stripped url = name ++ ':' :: '/' :: '/' :: (netloc ++ tail) ∧
      r.scheme = name.map Char.toLower ∧ r.netloc = netloc ∧
      name.head?.any Char.isAlpha = true ∧ (∀ c ∈ name, isSchemeChar c = true) ∧ IsTail tail := by
  unfold urlsplit at h
  generalize hsplit : splitScheme (stripped url) = parts at h
  obtain ⟨scheme, rest⟩ := parts
  dsimp only at h
  by_cases hslashes : rest.take 2 = ['/', '/']
  · rw [if_pos hslashes] at h
    generalize hspan : splitNetloc (rest.drop 2) = parts at h
    obtain ⟨netloc, tail⟩ := parts
    dsimp only at h
    cases hbrackets : Urllib.checkBrackets netloc with
    | error e =>
      rw [hbrackets] at h
      cases h
    | ok _ =>
      cases hcheck : Urllib.checkNetloc nfkc netloc with
      | error e =>
        rw [hbrackets, hcheck] at h
        cases h
      | ok _ =>
        rw [hbrackets, hcheck] at h
        obtain rfl := Except.ok.inj h
        obtain ⟨name, hurl, hname, hhead, hchars⟩ := exists_of_splitScheme hsplit hscheme
        unfold splitNetloc at hspan
        rw [List.span_eq_takeWhile_dropWhile] at hspan
        obtain ⟨htake, hdrop⟩ := Prod.mk.inj hspan
        refine ⟨name, netloc, tail, ?_, hname, rfl, hhead, hchars, fun c hc => ?_⟩
        · rw [hurl, ← htake, ← hdrop, List.takeWhile_append_dropWhile]
          conv_lhs => rw [← List.take_append_drop 2 rest, hslashes]
          rfl
        · have hnot := List.head?_dropWhile_not (fun c => !(c == '/' || c == '?' || c == '#'))
            (rest.drop 2)
          rw [hdrop, Option.mem_def.mp hc] at hnot
          by_contra hne
          obtain ⟨h₁, hne⟩ := not_or.mp hne
          obtain ⟨h₂, h₃⟩ := not_or.mp hne
          simp [h₁, h₂, h₃] at hnot
  · rw [if_neg hslashes] at h
    dsimp only at h
    exfalso
    refine hnetloc ?_
    have hnil : Urllib.checkBrackets [] = .ok () := rfl
    rw [hnil] at h
    obtain rfl := Except.ok.inj h
    rfl

theorem authorityText_append {m tail : List Char} (h : IsTail tail) :
    authorityText (m ++ tail) = authorityText m := by
  unfold authorityText
  rw [List.takeWhile_append]
  split_ifs with hlen
  · have hnil : tail.takeWhile (fun c => !(isSlash c || c == '?' || c == '#')) = [] := by
      cases tail with
      | nil => rfl
      | cons c tail =>
        rw [List.takeWhile_cons_of_neg]
        rcases h c rfl with rfl | rfl | rfl <;> exact Bool.false_ne_true
    rw [hnil, List.append_nil]
    exact ((List.takeWhile_prefix _).eq_of_length hlen).symm
  · rfl

variable {parseHost : List Char → Option String}

theorem authority_append {scheme : Scheme} {m tail : List Char} (h : IsTail tail) :
    WebUrl.authority parseHost scheme (m ++ tail) = WebUrl.authority parseHost scheme m := by
  unfold WebUrl.authority
  rw [authorityText_append h]

/-- An absolute URL with an authority is resolved without the base. -/
theorem resolve_absolute {base : WebUrl.Origin} {name netloc tail : List Char}
    (hclean : clean s = name ++ ':' :: '/' :: '/' :: (netloc ++ tail))
    (hhead : name.head?.any Char.isAlpha = true) (hname : ∀ c ∈ name, isSchemeChar c = true) :
    resolve parseHost base s =
      (Scheme.ofName (String.ofList (name.map Char.toLower))).bind fun scheme =>
        WebUrl.authority parseHost scheme ((netloc ++ tail).dropWhile isSlash) := by
  unfold resolve
  rw [hclean, schemeOf_append hhead hname]
  dsimp only
  cases Scheme.ofName (String.ofList (name.map Char.toLower)) with
  | none => rfl
  | some scheme =>
    show (if scheme = base.scheme ∧ _ then _ else _) = _
    rw [if_neg fun hif => hif.2 rfl]
    rfl

/-- When the scheme and the authority that `urlsplit` returns are the text of an origin, the whole
URL has this origin. -/
theorem resolve_eq_of_urlsplit {nfkc : List Char → List Char} {r : SplitResult}
    {base origin : WebUrl.Origin} (h : urlsplit nfkc url = .ok r) (hscheme : r.scheme ≠ [])
    (hnetloc : r.netloc ≠ [])
    (hclean : clean (r.scheme ++ "://".toList ++ r.netloc) = r.scheme ++ "://".toList ++ r.netloc)
    (horigin : resolve parseHost base (r.scheme ++ "://".toList ++ r.netloc) = some origin) :
    resolve parseHost base url = some origin := by
  obtain ⟨name, netloc, tail, hstripped, hs, hn, hhead, hname, htail⟩ :=
    exists_of_urlsplit h hscheme hnetloc
  rw [hs, hn] at hclean horigin
  rw [hn] at hnetloc
  -- the text of the origin is resolved by its scheme and its authority
  have hlower : resolve parseHost base (name.map Char.toLower ++ "://".toList ++ netloc) =
      (Scheme.ofName (String.ofList (name.map Char.toLower))).bind fun scheme =>
        WebUrl.authority parseHost scheme (netloc.dropWhile isSlash) := by
    have hmap : (name.map Char.toLower).map Char.toLower = name.map Char.toLower := by
      rw [List.map_map]
      exact List.map_congr_left fun c _ => toLower_toLower c
    have hsplit : clean (name.map Char.toLower ++ "://".toList ++ netloc) =
        name.map Char.toLower ++ ':' :: '/' :: '/' :: (netloc ++ []) := by
      rw [hclean, List.append_nil, List.append_assoc]
      rfl
    rw [resolve_absolute hsplit ?_ ?_, hmap, List.append_nil]
    · cases name with
      | nil => cases hhead
      | cons c name => exact isAlpha_toLower hhead
    · intro c hc
      obtain ⟨d, hd, rfl⟩ := List.mem_map.mp hc
      exact isSchemeChar_toLower (hname d hd)
  obtain ⟨tail', htail', hcleanurl⟩ : ∃ tail', IsTail tail' ∧
      clean url = name ++ ':' :: '/' :: '/' :: (netloc ++ tail') := by
    obtain ⟨t, ht, hspace⟩ := exists_clean_append url
    rw [hstripped, show name ++ ':' :: '/' :: '/' :: (netloc ++ tail) =
      (name ++ ':' :: '/' :: '/' :: netloc) ++ tail by simp] at ht
    rcases List.append_eq_append_iff.mp ht with ⟨tail', hlonger, htail'⟩ | ⟨bs, hbs, rfl⟩
    · refine ⟨tail', fun c hc => htail c ?_, by rw [hlonger]; simp⟩
      rw [htail', List.head?_append, Option.mem_def.mp hc]
      rfl
    · -- the authority does not end with what is stripped
      obtain ⟨init, c, rfl⟩ := List.eq_nil_or_concat netloc |>.resolve_left hnetloc
      rw [List.concat_eq_append, ← List.append_assoc] at hclean
      have hlast := isC0OrSpace_of_clean hclean
      rcases List.eq_nil_or_concat bs with rfl | ⟨bs, d, rfl⟩
      · exact ⟨[], fun c hc => (nomatch hc), by simpa using hbs.symm⟩
      · have hcd : c = d := by
          have happend : (name ++ ':' :: '/' :: '/' :: init) ++ [c] = (clean url ++ bs) ++ [d] := by
            rw [List.concat_eq_append, List.concat_eq_append, ← List.append_assoc] at hbs
            rw [← hbs, List.append_assoc]
            rfl
          exact List.singleton_inj.mp (List.append_inj' happend rfl).2
        rw [hcd, hspace d (by simp)] at hlast
        cases hlast
  rw [hlower] at horigin
  rw [resolve_absolute hcleanurl hhead hname]
  obtain ⟨scheme, hscheme, hauthority⟩ := Option.bind_eq_some_iff.mp horigin
  rw [hscheme, Option.bind_some, List.dropWhile_append]
  split_ifs with hempty
  · -- an origin has a host
    rw [List.isEmpty_iff.mp hempty] at hauthority
    cases hauthority
  · rw [authority_append htail', hauthority]

/-! ### URLs as browsers write them -/

theorem stripped_of_origin {name rest : List Char} (hhead : name.head?.any Char.isAlpha = true)
    (hname : ∀ c ∈ name, isSchemeChar c = true)
    (hplain : ∀ c ∈ rest, Urllib.isUnsafe c = false) :
    stripped (name ++ "://".toList ++ rest) = name ++ "://".toList ++ rest := by
  have hunsafe : ∀ c, isSchemeChar c = true → Urllib.isUnsafe c = false := by
    intro c hc
    unfold Urllib.isUnsafe
    rw [Bool.or_eq_false_iff, Bool.or_eq_false_iff, beq_eq_false_iff_ne, beq_eq_false_iff_ne,
      beq_eq_false_iff_ne]
    refine ⟨⟨?_, ?_⟩, ?_⟩ <;> rintro rfl <;> cases hc
  have hdrop : (name ++ "://".toList ++ rest).dropWhile Urllib.isC0OrSpace =
      name ++ "://".toList ++ rest := by
    cases name with
    | nil => cases hhead
    | cons c name =>
      have halpha : c.isAlpha = true := hhead
      refine List.dropWhile_cons_of_neg fun hspace => ?_
      have hle : c.toNat ≤ 32 := of_decide_eq_true hspace
      rw [isAlpha_iff, isUpper_iff, isLower_iff] at halpha
      omega
  unfold stripped
  rw [hdrop, List.filter_eq_self]
  intro c hc
  rw [Bool.not_eq_true']
  rcases List.mem_append.mp hc with hc | hc
  · rcases List.mem_append.mp hc with hc | hc
    · exact hunsafe c (hname c hc)
    · have hsep : "://".toList.all (fun d => !Urllib.isUnsafe d) = true := by decide
      exact (Bool.not_eq_true' _).mp (List.all_eq_true.mp hsep c hc)
  · exact hplain c hc

/-- What `urlsplit` reads of a URL without tabs and newlines, whose scheme is in lower case. -/
theorem urlsplit_of_origin {nfkc : List Char → List Char} {name netloc tail : List Char}
    (hhead : name.head?.any Char.isAlpha = true)
    (hname : ∀ c ∈ name, isSchemeChar c = true ∧ c.toLower = c)
    (hvalid : Urllib.ValidNetloc nfkc netloc)
    (hdelim : ∀ c ∈ netloc, ¬(c = '/' ∨ c = '?' ∨ c = '#')) (htail : IsTail tail)
    (hplain : ∀ c ∈ netloc ++ tail, Urllib.isUnsafe c = false) :
    ∃ r, urlsplit nfkc (name ++ "://".toList ++ (netloc ++ tail)) = .ok r ∧ r.scheme = name ∧
      r.netloc = netloc := by
  have hstripped := stripped_of_origin hhead (fun c hc => (hname c hc).1) hplain
  -- the scheme ends at the first colon
  have hscheme : splitScheme (name ++ "://".toList ++ (netloc ++ tail)) =
      (name, '/' :: '/' :: (netloc ++ tail)) := by
    have hcolon : ∀ c ∈ name, decide (c ≠ ':') = true := fun c hc =>
      decide_eq_true (isSchemeChar_ne_colon (hname c hc).1)
    have hspan : (name ++ "://".toList ++ (netloc ++ tail)).span (· ≠ ':') =
        (name, ':' :: '/' :: '/' :: (netloc ++ tail)) := by
      rw [List.span_eq_takeWhile_dropWhile, List.append_assoc,
        List.takeWhile_append_of_pos hcolon, List.dropWhile_append_of_pos hcolon]
      simp
    have hall : name.all isSchemeChar = true := List.all_eq_true.mpr fun c hc => (hname c hc).1
    have hlower : name.map Char.toLower = name :=
      (List.map_congr_left fun c hc => (hname c hc).2).trans (List.map_id name)
    unfold splitScheme
    rw [hspan]
    dsimp only
    rw [hhead, hall, hlower]
    rfl
  have hnetloc : splitNetloc (netloc ++ tail) = (netloc, tail) := by
    have hpos : ∀ c ∈ netloc, (!(c == '/' || c == '?' || c == '#')) = true := by
      intro c hc
      have hne := hdelim c hc
      simp only [not_or] at hne
      simp [hne.1, hne.2.1, hne.2.2]
    unfold splitNetloc
    rw [List.span_eq_takeWhile_dropWhile, List.takeWhile_append_of_pos hpos,
      List.dropWhile_append_of_pos hpos]
    cases tail with
    | nil => simp
    | cons c tail => rcases htail c rfl with rfl | rfl | rfl <;> simp
  obtain ⟨hbrackets, hcheck⟩ := Urllib.validNetloc_iff.mp hvalid
  have hparts : (if ('/' :: '/' :: (netloc ++ tail)).take 2 = ['/', '/'] then
      splitNetloc (('/' :: '/' :: (netloc ++ tail)).drop 2)
      else ([], '/' :: '/' :: (netloc ++ tail))) = (netloc, tail) := (if_pos rfl).trans hnetloc
  unfold urlsplit
  rw [hstripped, hscheme]
  dsimp only
  simp only [hparts, hbrackets, hcheck]
  exact ⟨_, rfl, rfl, rfl⟩

end UrlOrigin
