import Mathlib.Data.List.Infix
import Mathlib.Data.List.TakeDrop

/-! Rules that rewrite a list from left to right, where the first rule that matches at a place is applied,
and the codings of an alphabet through which such rules can be applied to the codes. -/

namespace Rewriting
variable {α β : Type*}

abbrev Rule (α : Type*) := List α × List α

section Rules
variable [DecidableEq α]

/-- The first rule whose left side stands at the beginning. -/
def firstRule (rules : List (Rule α)) (s : List α) : Option (Rule α) :=
  rules.find? fun rule => decide (rule.1 ≠ [] ∧ rule.1 <+: s)

/-- One scan. What a rule writes is not matched again. -/
inductive Rewrites (rules : List (Rule α)) : List α → List α → Prop
  | nil : Rewrites rules [] []
  | rule {needle replacement s t : List α} (hne : needle ≠ [])
      (hrule : firstRule rules (needle ++ s) = some (needle, replacement)) (h : Rewrites rules s t) :
      Rewrites rules (needle ++ s) (replacement ++ t)
  | keep {c : α} {s t : List α} (hnone : firstRule rules (c :: s) = none) (h : Rewrites rules s t) :
      Rewrites rules (c :: s) (c :: t)

variable {rules : List (Rule α)} {s t : List α}

theorem mem_of_firstRule {rule : Rule α} (h : firstRule rules s = some rule) :
    rule ∈ rules ∧ rule.1 ≠ [] ∧ rule.1 <+: s := by
  refine ⟨List.mem_of_find?_eq_some h, ?_⟩
  have hfound := List.find?_some h
  exact of_decide_eq_true hfound

theorem firstRule_eq_none_iff :
    firstRule rules s = none ↔ ∀ rule ∈ rules, rule.1 ≠ [] → ¬ rule.1 <+: s := by
  unfold firstRule
  rw [List.find?_eq_none]
  refine forall₂_congr fun rule _ => ?_
  rw [decide_eq_true_eq, not_and]

/-- Every list is rewritten. -/
theorem exists_rewrites (rules : List (Rule α)) (s : List α) : ∃ t, Rewrites rules s t := by
  induction hlength : s.length using Nat.strongRecOn generalizing s with
  | ind n ih =>
    cases s with
    | nil => exact ⟨[], .nil⟩
    | cons c s =>
      cases hrule : firstRule rules (c :: s) with
      | none =>
        obtain ⟨t, ht⟩ := ih s.length (by rw [← hlength]; exact Nat.lt_succ_self _) s rfl
        exact ⟨c :: t, .keep hrule ht⟩
      | some rule =>
        obtain ⟨-, hne, rest, hrest⟩ := mem_of_firstRule hrule
        have hshort : rest.length < n := by
          rw [← hlength, ← hrest, List.length_append]
          exact Nat.lt_add_of_pos_left (List.length_pos_iff.mpr hne)
        obtain ⟨t, ht⟩ := ih rest.length hshort rest rfl
        rw [← hrest] at hrule ⊢
        exact ⟨rule.2 ++ t, .rule hne hrule ht⟩

/-- A list in which no rule matches stays as it is. -/
theorem rewrites_self (h : ∀ rule ∈ rules, ∀ c ∈ rule.1, c ∉ s) : Rewrites rules s s := by
  induction s with
  | nil => exact .nil
  | cons c s ih =>
    refine .keep (firstRule_eq_none_iff.mpr fun rule hmem hne hleading => ?_)
      (ih fun rule hmem d hd hin => h rule hmem d hd (List.mem_cons_of_mem c hin))
    obtain ⟨d, needle, hneedle⟩ := List.exists_cons_of_ne_nil hne
    have hd : d ∈ rule.1 := hneedle ▸ List.mem_cons_self ..
    exact h rule hmem d hd (hleading.subset hd)

/-- What a scan leaves was written by a rule, or stands where no rule matches. -/
theorem Rewrites.mem (h : Rewrites rules s t) {c : α} (hc : c ∈ t) :
    (∃ rule ∈ rules, c ∈ rule.2) ∨ c ∈ s ∧ [c] ∉ rules.map Prod.fst := by
  induction h with
  | nil => cases hc
  | @rule needle replacement s t hne hrule _ ih =>
    rcases List.mem_append.mp hc with hc | hc
    · exact .inl ⟨_, (mem_of_firstRule hrule).1, hc⟩
    · exact (ih hc).imp_right fun hkept => ⟨List.mem_append_right _ hkept.1, hkept.2⟩
  | @keep d s t hnone _ ih =>
    rcases List.mem_cons.mp hc with rfl | hc
    · refine .inr ⟨List.mem_cons_self .., fun hmem => ?_⟩
      obtain ⟨rule, hrule, hneedle⟩ := List.mem_map.mp hmem
      refine firstRule_eq_none_iff.mp hnone rule hrule ?_ ?_
      · rw [hneedle]
        exact List.cons_ne_nil _ _
      · rw [hneedle]
        exact ⟨s, rfl⟩
    · exact (ih hc).imp_right fun hkept => ⟨List.mem_cons_of_mem _ hkept.1, hkept.2⟩

/-- Rules for single letters act on each letter. -/
theorem Rewrites.map_eq {f : α → α} (hsome : ∀ c s rule, firstRule rules (c :: s) = some rule →
      rule = ([c], [f c])) (hnone : ∀ c s, firstRule rules (c :: s) = none → f c = c)
    (h : Rewrites rules s t) : t = s.map f := by
  induction h with
  | nil => rfl
  | @rule needle replacement s t hne hrule _ ih =>
    obtain ⟨c, rest, rfl⟩ := List.exists_cons_of_ne_nil hne
    have hsingle := hsome c (rest ++ s) _ hrule
    rw [Prod.mk.injEq] at hsingle
    obtain ⟨hneedle, rfl⟩ := hsingle
    rw [hneedle, ih]
    rfl
  | @keep c s t hrule _ ih => rw [List.map_cons, hnone c s hrule, ih]

/-- The first letter of what a scan leaves. -/
theorem Rewrites.head {P : α → Prop} (hP : ∀ rule ∈ rules, rule.2 ≠ [] ∧ ∀ c ∈ rule.2, P c)
    (h : Rewrites rules s t) (hhead : ∀ c ∈ s.head?, P c) : ∀ c ∈ t.head?, P c := by
  cases h with
  | nil => exact hhead
  | @rule needle replacement s t hne hrule _ =>
    obtain ⟨hwritten, hall⟩ := hP _ (mem_of_firstRule hrule).1
    obtain ⟨d, rest, hrest⟩ := List.exists_cons_of_ne_nil hwritten
    dsimp only at hrest hall
    rw [hrest] at hall ⊢
    rintro c ⟨⟩
    exact hall d (List.mem_cons_self ..)
  | keep => exact hhead

theorem Rewrites.eq_nil (hP : ∀ rule ∈ rules, rule.2 ≠ []) (h : Rewrites rules s []) : s = [] := by
  generalize hnil : ([] : List α) = t at h
  cases h with
  | nil => rfl
  | rule hne hrule =>
    exact absurd (List.append_eq_nil_iff.mp hnil.symm).1 (hP _ (mem_of_firstRule hrule).1)
  | keep => cases hnil

/-- The last letter of what a scan leaves. -/
theorem Rewrites.getLast {P : α → Prop} (hP : ∀ rule ∈ rules, rule.2 ≠ [] ∧ ∀ c ∈ rule.2, P c)
    (h : Rewrites rules s t) (hlast : ∀ c ∈ s.getLast?, P c) : ∀ c ∈ t.getLast?, P c := by
  induction h with
  | nil => exact hlast
  | @rule needle replacement s t hne hrule hrest ih =>
    obtain ⟨hwritten, hall⟩ := hP _ (mem_of_firstRule hrule).1
    intro c hc
    cases t with
    | nil =>
      rw [List.append_nil] at hc
      exact hall c (List.mem_of_getLast? hc)
    | cons d t =>
      rw [List.getLast?_append_cons] at hc
      refine ih (fun e he => hlast e ?_) c hc
      rw [List.getLast?_append, he]
      rfl
  | @keep d s t hnone hrest ih =>
    intro c hc
    cases t with
    | nil =>
      obtain rfl := hrest.eq_nil fun rule hmem => (hP rule hmem).1
      exact hlast c hc
    | cons e t =>
      rw [List.getLast?_cons_cons] at hc
      refine ih (fun x hx => hlast x ?_) c hc
      rw [List.getLast?_cons, hx]
      rfl

end Rules

/-! Codings. -/

/-- A coding whose codes are told apart by how they begin, and begin with units that stand nowhere else in
them. -/
structure Coding (α β : Type*) where
  code : α → List β
  first : β → Prop
  begins : ∀ c, ∃ unit rest, code c = unit :: rest ∧ first unit ∧ ∀ x ∈ rest, ¬ first x
  prefix_eq : ∀ c d, code c <+: code d → c = d

namespace Coding
variable (coding : Coding α β)

def encode (s : List α) : List β := s.flatMap coding.code

def encodeRule (rule : Rule α) : Rule β := (coding.encode rule.1, coding.encode rule.2)

@[simp] theorem encode_nil : coding.encode [] = [] := rfl

theorem encode_cons (c : α) (s : List α) : coding.encode (c :: s) = coding.code c ++ coding.encode s :=
  List.flatMap_cons ..

theorem encode_append (s t : List α) :
    coding.encode (s ++ t) = coding.encode s ++ coding.encode t := List.flatMap_append ..

theorem encode_eq_nil_iff {s : List α} : coding.encode s = [] ↔ s = [] := by
  constructor
  · intro h
    cases s with
    | nil => rfl
    | cons c s =>
      obtain ⟨unit, rest, hcode, -⟩ := coding.begins c
      rw [encode_cons, hcode] at h
      cases h
  · rintro rfl
    rfl

theorem code_append_inj {c d : α} {l l' : List β} (h : coding.code c ++ l = coding.code d ++ l') :
    c = d ∧ l = l' := by
  have hsame : c = d := by
    rcases List.prefix_or_prefix_of_prefix (List.prefix_append (coding.code c) l)
      (h ▸ List.prefix_append (coding.code d) l') with hleading | hleading
    · exact coding.prefix_eq c d hleading
    · exact (coding.prefix_eq d c hleading).symm
  subst hsame
  exact ⟨rfl, List.append_cancel_left h⟩

theorem encode_prefix_iff {s t : List α} : coding.encode s <+: coding.encode t ↔ s <+: t := by
  constructor
  · induction s generalizing t with
    | nil => exact fun _ => List.nil_prefix
    | cons c s ih =>
      rintro ⟨rest, hrest⟩
      cases t with
      | nil =>
        have hnil := (List.append_eq_nil_iff.mp hrest).1
        exact absurd (coding.encode_eq_nil_iff.mp hnil) (List.cons_ne_nil _ _)
      | cons d t =>
        rw [encode_cons, encode_cons, List.append_assoc] at hrest
        obtain ⟨rfl, hbehind⟩ := coding.code_append_inj hrest
        exact List.cons_prefix_cons.mpr ⟨rfl, ih ⟨rest, hbehind⟩⟩
  · rintro ⟨rest, rfl⟩
    rw [encode_append]
    exact List.prefix_append _ _

/-- Codes are found nowhere but where the letters stand. -/
theorem exists_of_prefix_drop {needle s : List α} (hne : needle ≠ []) {i : ℕ}
    (h : coding.encode needle <+: (coding.encode s).drop i) :
    ∃ a b, s = a ++ needle ++ b ∧ (coding.encode a).length = i := by
  induction s generalizing i with
  | nil =>
    rw [encode_nil, List.drop_nil, List.prefix_nil, encode_eq_nil_iff] at h
    exact absurd h hne
  | cons c s ih =>
    rcases Nat.lt_or_ge i (coding.code c).length with hlt | hge
    · cases i with
      | zero =>
        obtain ⟨b, hb⟩ := coding.encode_prefix_iff.mp h
        exact ⟨[], b, hb.symm, rfl⟩
      | succ i =>
        obtain ⟨unit, rest, hcode, -, hinner⟩ := coding.begins c
        obtain ⟨d, needle, rfl⟩ := List.exists_cons_of_ne_nil hne
        obtain ⟨unit', rest', hcode', hfirst, -⟩ := coding.begins d
        rw [hcode, List.length_cons, Nat.succ_lt_succ_iff] at hlt
        rw [encode_cons, encode_cons, hcode, hcode', List.cons_append, List.cons_append,
          List.drop_succ_cons, List.drop_append_of_le_length (Nat.le_of_lt hlt),
          List.drop_eq_getElem_cons hlt, List.cons_append, List.cons_prefix_cons] at h
        exact absurd (h.1 ▸ hfirst) (hinner _ (List.getElem_mem hlt))
    · rw [encode_cons, List.drop_append, List.drop_eq_nil_of_le hge, List.nil_append] at h
      obtain ⟨a, b, hs, hlength⟩ := ih h
      refine ⟨c :: a, b, by rw [hs]; rfl, ?_⟩
      rw [encode_cons, List.length_append, hlength]
      exact Nat.add_sub_cancel' hge

variable [DecidableEq α] [DecidableEq β] {rules : List (Rule α)} {s t : List α}

theorem firstRule_encode (rules : List (Rule α)) (s : List α) :
    firstRule (rules.map coding.encodeRule) (coding.encode s) =
      (firstRule rules s).map coding.encodeRule := by
  unfold firstRule
  rw [List.find?_map]
  congr 2
  funext rule
  rw [Function.comp_apply]
  refine decide_eq_decide.mpr (and_congr (not_congr coding.encode_eq_nil_iff) ?_)
  exact coding.encode_prefix_iff

/-- Within a code no rule matches. -/
theorem firstRule_inner {unit : β} (hinner : ¬ coding.first unit) (l : List β) :
    firstRule (rules.map coding.encodeRule) (unit :: l) = none := by
  refine firstRule_eq_none_iff.mpr fun rule hrule hne hleading => ?_
  obtain ⟨rule, -, rfl⟩ := List.mem_map.mp hrule
  obtain ⟨d, needle, hneedle⟩ := List.exists_cons_of_ne_nil
    (fun hnil => hne (coding.encode_eq_nil_iff.mpr hnil) : rule.1 ≠ [])
  obtain ⟨unit', rest, hcode, hfirst, -⟩ := coding.begins d
  change coding.encode rule.1 <+: unit :: l at hleading
  rw [hneedle, encode_cons, hcode, List.cons_append, List.cons_prefix_cons]
    at hleading
  exact hinner (hleading.1 ▸ hfirst)

theorem rewrites_inner {rest : List β} (hinner : ∀ x ∈ rest, ¬ coding.first x) {l l' : List β}
    (h : Rewrites (rules.map coding.encodeRule) l l') :
    Rewrites (rules.map coding.encodeRule) (rest ++ l) (rest ++ l') := by
  induction rest with
  | nil => exact h
  | cons unit rest ih =>
    obtain ⟨hunit, hrest⟩ := List.forall_mem_cons.mp hinner
    exact .keep (coding.firstRule_inner hunit _) (ih hrest)

/-- The codes are rewritten as the letters are. -/
theorem rewrites_encode (h : Rewrites rules s t) :
    Rewrites (rules.map coding.encodeRule) (coding.encode s) (coding.encode t) := by
  induction h with
  | nil => exact .nil
  | @rule needle replacement s t hne hrule _ ih =>
    rw [encode_append, encode_append]
    refine .rule (fun hnil => hne (coding.encode_eq_nil_iff.mp hnil)) ?_ ih
    rw [← encode_append, firstRule_encode, hrule]
    rfl
  | @keep c s t hnone _ ih =>
    obtain ⟨unit, rest, hcode, -, hinner⟩ := coding.begins c
    have hfirst := coding.firstRule_encode rules (c :: s)
    rw [encode_cons, hcode, hnone] at hfirst
    rw [encode_cons, encode_cons, hcode]
    exact .keep hfirst (coding.rewrites_inner hinner ih)

end Coding

end Rewriting
