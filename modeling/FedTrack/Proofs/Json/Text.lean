import FedTrack.Json.Printer
import Mathlib.Data.List.Basic

namespace FedTrack.Json

/-! A text can be told apart from what follows it, so that a document can be read off it. -/

/-- What follows does not go on with a number. -/
def Ends (r : List Char) : Prop := r.takeWhile Char.isDigit = []

theorem ends_cons {c : Char} (hc : c.isDigit = false) (r : List Char) : Ends (c :: r) := by
  simp [Ends, hc]

section Numbers

variable {r r' : List Char}

theorem takeWhile_toDigits (n : Nat) (hr : Ends r) :
    (Nat.toDigits 10 n ++ r).takeWhile Char.isDigit = Nat.toDigits 10 n := by
  have hdigits : ∀ c ∈ Nat.toDigits 10 n, c.isDigit = true :=
    fun c hc => Nat.isDigit_of_mem_toDigits (by decide) (by decide) hc
  rw [List.takeWhile_append_of_pos hdigits, hr, List.append_nil]

theorem eq_of_toDigits_eq {m n : Nat} (h : Nat.toDigits 10 m = Nat.toDigits 10 n) : m = n := by
  simpa using congrArg (fun digits => Nat.ofDigitChars 10 digits 0) h

theorem toDigits_append_inj {m n : Nat} (hr : Ends r) (hr' : Ends r')
    (h : Nat.toDigits 10 m ++ r = Nat.toDigits 10 n ++ r') : m = n ∧ r = r' := by
  have hdigits : Nat.toDigits 10 m = Nat.toDigits 10 n := by
    rw [← takeWhile_toDigits m hr, h, takeWhile_toDigits n hr']
  rw [hdigits] at h
  exact ⟨eq_of_toDigits_eq hdigits, List.append_cancel_left h⟩

/-- A number without a sign begins with a digit. -/
theorem head_toDigits (n : Nat) : ∃ c rest, Nat.toDigits 10 n = c :: rest ∧ c.isDigit = true := by
  obtain ⟨c, rest, hc⟩ := List.exists_cons_of_ne_nil (Nat.toDigits_ne_nil (n := n) (b := 10))
  refine ⟨c, rest, hc, Nat.isDigit_of_mem_toDigits (b := 10) (n := n) (by decide) (by decide) ?_⟩
  rw [hc]
  exact List.mem_cons_self

theorem wholeText_append_inj {i j : Int} (hr : Ends r) (hr' : Ends r')
    (h : wholeText i ++ r = wholeText j ++ r') : i = j ∧ r = r' := by
  have hsign (m n : Nat) (s s' : List Char) :
      '-' :: Nat.toDigits 10 m ++ s ≠ Nat.toDigits 10 n ++ s' := by
    obtain ⟨c, rest, hc, hdigit⟩ := head_toDigits n
    rw [hc]
    intro he
    have hcm : '-' = c := (List.cons.inj he).1
    rw [← hcm] at hdigit
    exact absurd hdigit (by decide)
  unfold wholeText at h
  split at h
  · split at h
    · obtain ⟨habs, hrest⟩ := toDigits_append_inj hr hr' (List.cons.inj h).2
      exact ⟨by omega, hrest⟩
    · exact absurd h (hsign _ _ _ _)
  · split at h
    · exact absurd h.symm (hsign _ _ _ _)
    · obtain ⟨habs, hrest⟩ := toDigits_append_inj hr hr' h
      exact ⟨by omega, hrest⟩

end Numbers

section Strings

/-- Characters that have an escape of two characters, and the second one of it. -/
def shorthands : List (Char × Char) :=
  [('"', '"'), ('\\', '\\'), ('\n', 'n'), ('\r', 'r'), ('\t', 't'), ('\x08', 'b'), ('\x0c', 'f')]

/-- How a character is written in a string. -/
inductive Escaped (c : Char) : List Char → Prop
  | short (e : Char) (h : (c, e) ∈ shorthands) : Escaped c ['\\', e]
  | coded (h : c.toNat < 32) : Escaped c
      ['\\', 'u', '0', '0', hexDigit (c.toNat / 16), hexDigit (c.toNat % 16)]
  | raw (hq : c ≠ '"') (hb : c ≠ '\\') : Escaped c [c]

theorem escaped_escape (c : Char) : Escaped c (escape c) := by
  unfold escape
  split_ifs with hq hb hn hr ht hbs hff hcontrol
  · exact .short _ (by simp [hq, shorthands])
  · exact .short _ (by simp [hb, shorthands])
  · exact .short _ (by simp [hn, shorthands])
  · exact .short _ (by simp [hr, shorthands])
  · exact .short _ (by simp [ht, shorthands])
  · exact .short _ (by simp [hbs, shorthands])
  · exact .short _ (by simp [hff, shorthands])
  · exact .coded hcontrol
  · exact .raw hq hb

theorem shorthands_inj {c d e : Char} (hc : (c, e) ∈ shorthands) (hd : (d, e) ∈ shorthands) :
    c = d := by
  have hall : ∀ p ∈ shorthands, ∀ q ∈ shorthands, p.2 = q.2 → p.1 = q.1 := by decide
  exact hall _ hc _ hd rfl

theorem not_mem_shorthands (c : Char) : (c, 'u') ∉ shorthands := by
  have hall : ∀ p ∈ shorthands, p.2 ≠ 'u' := by decide
  exact fun h => hall _ h rfl

variable {c d : Char} {x y r r' : List Char}

/-- The beginning of a string tells its first character. -/
theorem Escaped.append_inj (hx : Escaped c x) (hy : Escaped d y) (h : x ++ r = y ++ r') :
    c = d ∧ r = r' := by
  cases hx with
  | short e he =>
    cases hy with
    | short f hf =>
      simp only [List.cons_append, List.nil_append, List.cons.injEq, true_and] at h
      obtain ⟨rfl, rfl⟩ := h
      exact ⟨shorthands_inj he hf, rfl⟩
    | coded hd =>
      simp only [List.cons_append, List.cons.injEq, true_and] at h
      rw [h.1] at he
      exact absurd he (not_mem_shorthands c)
    | raw hq hb => exact absurd (List.cons.inj h).1.symm hb
  | coded hc =>
    cases hy with
    | short f hf =>
      simp only [List.cons_append, List.cons.injEq, true_and] at h
      rw [← h.1] at hf
      exact absurd hf (not_mem_shorthands d)
    | coded hd =>
      simp only [List.cons_append, List.nil_append, List.cons.injEq, true_and] at h
      obtain ⟨hhigh, hlow, hr⟩ := h
      have hdiv : c.toNat / 16 = d.toNat / 16 := hexDigit_inj (by omega) (by omega) hhigh
      have hmod : c.toNat % 16 = d.toNat % 16 := hexDigit_inj (by omega) (by omega) hlow
      exact ⟨Char.toNat_inj.mp (by omega), hr⟩
    | raw hq hb => exact absurd (List.cons.inj h).1.symm hb
  | raw hq hb =>
    cases hy with
    | short f hf => exact absurd (List.cons.inj h).1 hb
    | coded hd => exact absurd (List.cons.inj h).1 hb
    | raw hq' hb' => exact List.cons.inj h

/-- No escape begins with the quote that ends the string. -/
theorem Escaped.ne_quote (hx : Escaped c x) : x ++ r ≠ '"' :: r' := by
  cases hx with
  | short e he => exact fun h => absurd (List.cons.inj h).1 (by decide)
  | coded hc => exact fun h => absurd (List.cons.inj h).1 (by decide)
  | raw hq hb => exact fun h => hq (List.cons.inj h).1

theorem flatMap_escape_inj {cs ds : List Char}
    (h : cs.flatMap escape ++ '"' :: r = ds.flatMap escape ++ '"' :: r') : cs = ds ∧ r = r' := by
  induction cs generalizing ds with
  | nil =>
    cases ds with
    | nil => exact ⟨rfl, (List.cons.inj h).2⟩
    | cons d ds =>
      rw [List.flatMap_cons, List.append_assoc] at h
      exact absurd h.symm (escaped_escape d).ne_quote
  | cons c cs ih =>
    cases ds with
    | nil =>
      rw [List.flatMap_cons, List.append_assoc] at h
      exact absurd h (escaped_escape c).ne_quote
    | cons d ds =>
      rw [List.flatMap_cons, List.flatMap_cons, List.append_assoc, List.append_assoc] at h
      obtain ⟨rfl, hrest⟩ := (escaped_escape c).append_inj (escaped_escape d) h
      obtain ⟨rfl, hr⟩ := ih hrest
      exact ⟨rfl, hr⟩

theorem quoted_append_inj {s t : String} (h : quoted s ++ r = quoted t ++ r') :
    s = t ∧ r = r' := by
  simp only [quoted, List.cons_append, List.append_assoc, List.nil_append, List.cons.injEq,
    true_and] at h
  obtain ⟨hl, hr⟩ := flatMap_escape_inj h
  exact ⟨String.toList_inj.mp hl, hr⟩

end Strings

mutual

/-- No number within the document is a fraction. -/
def whole : Json → Bool
  | .number (.double _) => false
  | .array items => itemsWhole items
  | .object members => membersWhole members
  | _ => true

def itemsWhole : List Json → Bool
  | [] => true
  | j :: rest => whole j && itemsWhole rest

def membersWhole : List (String × Json) → Bool
  | [] => true
  | (_, j) :: rest => whole j && membersWhole rest

end

/-- What the first character of a text tells of the document. -/
def kindOf (c : Char) : String :=
  if c.isDigit ∨ c = '-' then "number"
  else if c = 'n' then "null"
  else if c = 't' ∨ c = 'f' then "bool"
  else if c = '"' then "string"
  else if c = '[' then "array"
  else if c = '{' then "map"
  else ""

theorem kindOf_wholeText (i : Int) : ∃ c rest, wholeText i = c :: rest ∧ kindOf c = "number" := by
  unfold wholeText
  split
  · exact ⟨'-', _, rfl, rfl⟩
  · obtain ⟨c, rest, hc, hdigit⟩ := head_toDigits i.natAbs
    exact ⟨c, rest, hc, if_pos (Or.inl hdigit)⟩

theorem kindOf_chars {j : Json} (h : j.whole = true) :
    ∃ c rest, chars j = c :: rest ∧ kindOf c = j.kindWord := by
  cases j with
  | null => exact ⟨_, _, rfl, rfl⟩
  | bool b =>
    cases b with
    | false => exact ⟨_, _, rfl, rfl⟩
    | true => exact ⟨_, _, rfl, rfl⟩
  | number n =>
    cases n with
    | whole i => exact kindOf_wholeText i
    | double d => cases h
  | string s => exact ⟨_, _, rfl, rfl⟩
  | array items => exact ⟨_, _, rfl, rfl⟩
  | object members => exact ⟨_, _, rfl, rfl⟩

variable {r r' : List Char}

theorem kindWord_eq {a b : Json} (ha : a.whole = true) (hb : b.whole = true)
    (h : chars a ++ r = chars b ++ r') : a.kindWord = b.kindWord := by
  obtain ⟨c, x, hc, hka⟩ := kindOf_chars ha
  obtain ⟨d, y, hd, hkb⟩ := kindOf_chars hb
  rw [hc, hd] at h
  have hcd : c = d := (List.cons.inj h).1
  rw [← hka, ← hkb, hcd]

/-- A list does not end where an item begins. -/
theorem chars_ne_close {j : Json} (hj : j.whole = true) : ']' :: r ≠ chars j ++ r' := by
  obtain ⟨c, x, hc, hk⟩ := kindOf_chars hj
  rw [hc]
  intro h
  have hclose : ']' = c := (List.cons.inj h).1
  have hnone : kindOf ']' = "" := by decide
  rw [← hclose, hnone] at hk
  cases j <;> simp [kindWord] at hk

/-- What follows an element of a list: the end, or a comma and the other elements. -/
def tail {α : Type} (close : Char) (text : List α → List Char) : List α → List Char
  | [] => [close]
  | e :: rest => ',' :: text (e :: rest)

theorem itemChars_cons (j : Json) (rest : List Json) :
    itemChars (j :: rest) = chars j ++ tail ']' itemChars rest := by
  cases rest <;> rfl

theorem memberChars_cons (k : String) (j : Json) (rest : List (String × Json)) :
    memberChars ((k, j) :: rest) = quoted k ++ ':' :: (chars j ++ tail '}' memberChars rest) := by
  cases rest <;> rfl

section

variable {α : Type} {close : Char} {text : List α → List Char} {l m : List α}

theorem ends_tail (hclose : close.isDigit = false) (l : List α) (r : List Char) :
    Ends (tail close text l ++ r) := by
  cases l with
  | nil => exact ends_cons hclose _
  | cons e rest => exact ends_cons (by decide) _

/-- Two tails end together, or go on together. -/
theorem tail_append_inj (hclose : close ≠ ',')
    (h : tail close text l ++ r = tail close text m ++ r') :
    (l = m ∧ r = r') ∨ text l ++ r = text m ++ r' := by
  cases l with
  | nil =>
    cases m with
    | nil => exact Or.inl ⟨rfl, (List.cons.inj h).2⟩
    | cons e rest => exact absurd (List.cons.inj h).1 hclose
  | cons e rest =>
    cases m with
    | nil => exact absurd (List.cons.inj h).1.symm hclose
    | cons e' rest' => exact Or.inr (List.cons.inj h).2

end

mutual

/-- A document can be read off its text, whatever follows it. -/
theorem chars_append_inj : (a b : Json) → a.whole = true → b.whole = true →
    ∀ r r', Ends r → Ends r' → chars a ++ r = chars b ++ r' → a = b ∧ r = r'
  | .null, b, ha, hb, r, r', _, _, h => by
    have hk := kindWord_eq ha hb h
    cases b with
    | null => exact ⟨rfl, List.append_cancel_left h⟩
    | _ => simp [kindWord] at hk
  | .bool v, b, ha, hb, r, r', _, _, h => by
    have hk := kindWord_eq ha hb h
    cases b with
    | bool w => cases v <;> cases w <;> simp_all [chars]
    | _ => simp [kindWord] at hk
  | .number n, b, ha, hb, r, r', hr, hr', h => by
    have hk := kindWord_eq ha hb h
    cases b with
    | number m =>
      cases n with
      | double d => cases ha
      | whole i =>
        cases m with
        | double d => cases hb
        | whole j =>
          obtain ⟨rfl, hrest⟩ := wholeText_append_inj hr hr' h
          exact ⟨rfl, hrest⟩
    | _ => simp [kindWord] at hk
  | .string s, b, ha, hb, r, r', _, _, h => by
    have hk := kindWord_eq ha hb h
    cases b with
    | string t =>
      obtain ⟨rfl, hrest⟩ := quoted_append_inj h
      exact ⟨rfl, hrest⟩
    | _ => simp [kindWord] at hk
  | .array l, b, ha, hb, r, r', _, _, h => by
    have hk := kindWord_eq ha hb h
    cases b with
    | array m =>
      obtain ⟨rfl, hrest⟩ := itemChars_append_inj l m ha hb r r' (List.cons.inj h).2
      exact ⟨rfl, hrest⟩
    | _ => simp [kindWord] at hk
  | .object l, b, ha, hb, r, r', _, _, h => by
    have hk := kindWord_eq ha hb h
    cases b with
    | object m =>
      obtain ⟨rfl, hrest⟩ := memberChars_append_inj l m ha hb r r' (List.cons.inj h).2
      exact ⟨rfl, hrest⟩
    | _ => simp [kindWord] at hk

theorem itemChars_append_inj : (l m : List Json) → itemsWhole l = true → itemsWhole m = true →
    ∀ r r', itemChars l ++ r = itemChars m ++ r' → l = m ∧ r = r'
  | [], [], _, _, r, r', h => ⟨rfl, List.append_cancel_left h⟩
  | [], b :: m, _, hm, r, r', h => by
    simp only [itemsWhole, Bool.and_eq_true] at hm
    rw [itemChars_cons, List.append_assoc] at h
    exact absurd h (chars_ne_close hm.1)
  | a :: l, [], hl, _, r, r', h => by
    simp only [itemsWhole, Bool.and_eq_true] at hl
    rw [itemChars_cons, List.append_assoc] at h
    exact absurd h.symm (chars_ne_close hl.1)
  | a :: l, b :: m, hl, hm, r, r', h => by
    simp only [itemsWhole, Bool.and_eq_true] at hl hm
    rw [itemChars_cons, itemChars_cons, List.append_assoc, List.append_assoc] at h
    obtain ⟨rfl, htail⟩ := chars_append_inj a b hl.1 hm.1 _ _ (ends_tail (by decide) l r)
      (ends_tail (by decide) m r') h
    rcases tail_append_inj (by decide) htail with ⟨rfl, hr⟩ | hrest
    · exact ⟨rfl, hr⟩
    · obtain ⟨rfl, hr⟩ := itemChars_append_inj l m hl.2 hm.2 r r' hrest
      exact ⟨rfl, hr⟩

theorem memberChars_append_inj : (l m : List (String × Json)) → membersWhole l = true →
    membersWhole m = true → ∀ r r', memberChars l ++ r = memberChars m ++ r' → l = m ∧ r = r'
  | [], [], _, _, r, r', h => ⟨rfl, List.append_cancel_left h⟩
  | [], (k, b) :: m, _, _, r, r', h => by
    rw [memberChars_cons] at h
    exact absurd (List.cons.inj h).1 (by decide)
  | (k, a) :: l, [], _, _, r, r', h => by
    rw [memberChars_cons] at h
    exact absurd (List.cons.inj h).1 (by decide)
  | (k, a) :: l, (k', b) :: m, hl, hm, r, r', h => by
    simp only [membersWhole, Bool.and_eq_true] at hl hm
    rw [memberChars_cons, memberChars_cons, List.append_assoc, List.append_assoc] at h
    obtain ⟨rfl, hvalue⟩ := quoted_append_inj h
    simp only [List.cons_append, List.append_assoc, List.cons.injEq, true_and] at hvalue
    obtain ⟨rfl, htail⟩ := chars_append_inj a b hl.1 hm.1 _ _ (ends_tail (by decide) l r)
      (ends_tail (by decide) m r') hvalue
    rcases tail_append_inj (by decide) htail with ⟨rfl, hr⟩ | hrest
    · exact ⟨rfl, hr⟩
    · obtain ⟨rfl, hr⟩ := memberChars_append_inj l m hl.2 hm.2 r r' hrest
      exact ⟨rfl, hr⟩

end

/-- Documents without fractions have one text only if they are the same. -/
theorem text_inj {a b : Json} (ha : a.whole = true) (hb : b.whole = true) :
    a.text = b.text ↔ a = b := by
  constructor
  · intro h
    have hchars : chars a ++ [] = chars b ++ [] := by
      rw [List.append_nil, List.append_nil]
      exact String.ofList_inj.mp h
    exact (chars_append_inj a b ha hb [] [] rfl rfl hchars).1
  · intro h
    rw [h]

end FedTrack.Json
