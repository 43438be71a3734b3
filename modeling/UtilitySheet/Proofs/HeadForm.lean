import Mathlib.Data.List.Chain
import Mathlib.Tactic.MkIffOfInductiveProp
import UtilitySheet.Proofs.Spacing

/-!
# The normal form of a head

A head is in normal form if it has no blanks at its ends, none but single spaces inside, and none at
a comma. These heads are exactly the ones that are their own normal form
(`isNormal_iff_normalHead_eq`). Two heads have the same normal form if and only if they have the
same characters, blanks aside, and blanks between the same neighbours, unless one of the two is a
comma (`normalHead_eq_iff`). A head in normal form that is printed at any depth, with each selector
on a line of its own, has this normal form again.
-/

namespace UtilitySheet

open Text

namespace Sheet

/-! ## Heads that are their own normal form -/

/-- A head in normal form. -/
structure IsNormal (n : Text) : Prop where
  head : ∀ c, n.head? = some c → isBlank c = false
  last : ∀ c, n.getLast? = some c → isBlank c = false
  spaces : ∀ c ∈ n, isBlank c = true → c = ' '
  single : ¬ [' ', ' '] <:+: n
  beforeComma : ¬ [' ', ','] <:+: n
  behindComma : ¬ [',', ' '] <:+: n

/-- Whether a character may stand behind another one in a head in normal form. -/
def MayFollow (a b : Char) : Prop :=
  ¬ (a = ' ' ∧ b = ' ') ∧ ¬ (a = ' ' ∧ b = ',') ∧ ¬ (a = ',' ∧ b = ' ')

theorem mayFollow_of_not_isBlank {a b : Char} (ha : ¬ isBlank a = true) (hb : ¬ isBlank b = true) :
    MayFollow a b := by
  have ha := ne_space ha
  have hb := ne_space hb
  exact ⟨fun h => ha h.1, fun h => ha h.1, fun h => hb h.2⟩

/-- The front of a head is like the place behind a comma: no space may stand there. -/
theorem IsNormal.isChain {n : Text} (h : IsNormal n) : (',' :: n).IsChain MayFollow := by
  refine List.isChain_iff_forall_rel_of_append_cons_cons.2 fun a b front back hn => ?_
  cases front with
  | nil =>
    obtain ⟨rfl, rfl⟩ := List.cons.inj hn
    have hb : ¬ isBlank b = true := Bool.eq_false_iff.1 (h.head b rfl)
    exact mayFollow_of_not_isBlank (by decide) hb
  | cons c front =>
    obtain ⟨-, rfl⟩ := List.cons.inj hn
    have hinfix : [a, b] <:+: front ++ a :: b :: back := ⟨front, back, by simp⟩
    refine ⟨?_, ?_, ?_⟩
    · rintro ⟨rfl, rfl⟩
      exact h.single hinfix
    · rintro ⟨rfl, rfl⟩
      exact h.beforeComma hinfix
    · rintro ⟨rfl, rfl⟩
      exact h.behindComma hinfix

theorem mayFollow_of_isInfix {n : Text} (hchain : (',' :: n).IsChain MayFollow) {a b : Char}
    (h : [a, b] <:+: n) : MayFollow a b :=
  have hpair := List.IsChain.infix hchain.tail h
  List.isChain_pair.1 hpair

theorem isNormal_of_isChain {n : Text} (hchain : (',' :: n).IsChain MayFollow)
    (hlast : ∀ c, n.getLast? = some c → isBlank c = false)
    (hspaces : ∀ c ∈ n, isBlank c = true → c = ' ') : IsNormal n where
  head c hc := by
    obtain ⟨n, rfl⟩ := List.head?_eq_some_iff.1 hc
    refine Bool.eq_false_iff.2 fun hblank => ?_
    obtain rfl := hspaces c List.mem_cons_self hblank
    exact (List.isChain_cons_cons.1 hchain).1.2.2 ⟨rfl, rfl⟩
  last := hlast
  spaces := hspaces
  single h := (mayFollow_of_isInfix hchain h).1 ⟨rfl, rfl⟩
  beforeComma h := (mayFollow_of_isInfix hchain h).2.1 ⟨rfl, rfl⟩
  behindComma h := (mayFollow_of_isInfix hchain h).2.2 ⟨rfl, rfl⟩

section

variable {last : Char} {gap : Bool} {s : Text}

theorem isChain_tightenFrom (hlast : ¬ isBlank last = true) (gap : Bool) (s : Text) :
    (last :: tightenFrom last gap s).IsChain MayFollow := by
  induction s generalizing last gap with
  | nil => exact List.isChain_singleton last
  | cons c s ih =>
    rw [tightenFrom]
    split
    · exact ih hlast true
    · rename_i hc
      split
      · rename_i hspace
        simp only [Bool.and_eq_true, bne_iff_ne, ne_eq] at hspace
        have hbefore : MayFollow last ' ' :=
          ⟨fun h => ne_space hlast h.1, fun h => ne_space hlast h.1, fun h => hspace.1.2 h.1⟩
        have hbehind : MayFollow ' ' c :=
          ⟨fun h => ne_space hc h.2, fun h => hspace.2 h.2, fun h => ne_space hc h.2⟩
        exact .cons_cons hbefore (.cons_cons hbehind (ih hc false))
      · exact .cons_cons (mayFollow_of_not_isBlank hlast hc) (ih hc false)

/-- Behind a character that is no blank, the last one is that character or the last of the rest. -/
theorem not_isBlank_of_getLast?_cons {c d : Char} {t : Text} (hd : ¬ isBlank d = true)
    (ht : t.getLast? = some c → isBlank c = false) (h : (d :: t).getLast? = some c) :
    isBlank c = false := by
  rw [List.getLast?_cons] at h
  cases hlast : t.getLast? with
  | none =>
    rw [hlast, Option.getD_none, Option.some.injEq] at h
    exact h ▸ Bool.eq_false_iff.2 hd
  | some e =>
    rw [hlast, Option.getD_some] at h
    exact ht (hlast.trans h)

theorem getLast?_tightenFrom {c : Char} (h : (tightenFrom last gap s).getLast? = some c) :
    isBlank c = false := by
  induction s generalizing last gap with
  | nil => cases h
  | cons d s ih =>
    rw [tightenFrom] at h
    split at h
    · exact ih h
    · rename_i hd
      split at h
      · rw [List.getLast?_cons_cons] at h
        exact not_isBlank_of_getLast?_cons hd ih h
      · exact not_isBlank_of_getLast?_cons hd ih h

theorem eq_space_of_mem_tightenFrom {c : Char} (h : c ∈ tightenFrom last gap s)
    (hc : isBlank c = true) : c = ' ' := by
  induction s generalizing last gap with
  | nil => cases h
  | cons d s ih =>
    rw [tightenFrom] at h
    split at h
    · exact ih h
    · rename_i hd
      split at h
      · rcases List.mem_cons.1 h with rfl | h
        · rfl
        rcases List.mem_cons.1 h with rfl | h
        · exact absurd hc hd
        · exact ih h
      · rcases List.mem_cons.1 h with rfl | h
        · exact absurd hc hd
        · exact ih h

end

/-- **The normal form of a head is in normal form.** -/
theorem isNormal_normalHead (s : Text) : IsNormal (normalHead s) := by
  rw [normalHead_eq_tighten]
  exact isNormal_of_isChain (isChain_tightenFrom (by decide) false s)
    (fun _ => getLast?_tightenFrom) fun _ => eq_space_of_mem_tightenFrom

/-- A text with single spaces where they may stand is not tightened any more. -/
theorem tightenFrom_eq_self : ∀ {last : Char} {n : Text}, (last :: n).IsChain MayFollow →
    (∀ c, n.getLast? = some c → isBlank c = false) → (∀ c ∈ n, isBlank c = true → c = ' ') →
    tightenFrom last false n = n
  | _, [], _, _, _ => rfl
  | last, [c], _, hlast, _ => by simp [tightenFrom, hlast c rfl]
  | last, c :: d :: n, hchain, hlast, hspaces => by
    obtain ⟨hc, hchain⟩ := List.isChain_cons_cons.1 hchain
    obtain ⟨hd, hrest⟩ := List.isChain_cons_cons.1 hchain
    rw [List.getLast?_cons_cons] at hlast
    rw [List.forall_mem_cons] at hspaces
    by_cases hblank : isBlank c = true
    · obtain rfl := hspaces.1 hblank
      have hcomma : last ≠ ',' := fun h => hc.2.2 ⟨h, rfl⟩
      have hdcomma : d ≠ ',' := fun h => hd.2.1 ⟨rfl, h⟩
      have hdblank : isBlank d = false := by
        refine Bool.eq_false_iff.2 fun h => hd.1 ⟨rfl, ?_⟩
        exact hspaces.2 d List.mem_cons_self h
      have hnlast : ∀ e, n.getLast? = some e → isBlank e = false := by
        intro e he
        refine hlast e ?_
        rw [List.getLast?_cons, he, Option.getD_some]
      have hn := tightenFrom_eq_self hrest hnlast fun e he =>
        hspaces.2 e (List.mem_cons_of_mem d he)
      simp [tightenFrom, hblank, hdblank, hcomma, hdcomma, hn]
    · have hn := tightenFrom_eq_self hchain hlast hspaces.2
      rw [tightenFrom, if_neg hblank, Bool.false_and, Bool.false_and, if_neg Bool.false_ne_true, hn]

/-- **A head is in normal form if and only if it is its own normal form.** -/
theorem isNormal_iff_normalHead_eq {n : Text} : IsNormal n ↔ normalHead n = n := by
  constructor
  · intro h
    rw [normalHead_eq_tighten]
    exact tightenFrom_eq_self h.isChain h.last h.spaces
  · intro h
    rw [← h]
    exact isNormal_normalHead n

/-! ## Heads with the same normal form -/

/-- The characters of a text, blanks aside, each with whether there are blanks right before it. -/
def gapped (gap : Bool) : Text → List (Bool × Char)
  | [] => []
  | c :: s => if isBlank c then gapped true s else (gap, c) :: gapped false s

/-- The characters behind the character `last`, with a space in each gap that is not at a comma. -/
def joined (last : Char) : List (Bool × Char) → Text
  | [] => []
  | (gap, c) :: l =>
    if gap && last != ',' && c != ',' then ' ' :: c :: joined c l else c :: joined c l

theorem tightenFrom_eq_joined (last : Char) (gap : Bool) (s : Text) :
    tightenFrom last gap s = joined last (gapped gap s) := by
  induction s generalizing last gap with
  | nil => rfl
  | cons c s ih =>
    rw [tightenFrom, gapped]
    split
    · exact ih last true
    · rw [joined, ih c false]

theorem map_snd_gapped (gap : Bool) (s : Text) : (gapped gap s).map Prod.snd = withoutBlanks s := by
  induction s generalizing gap with
  | nil => rfl
  | cons c s ih =>
    by_cases hc : isBlank c = true
    · rw [gapped, if_pos hc, ih, withoutBlanks, withoutBlanks,
        List.filter_cons_of_neg (by simp [hc])]
    · rw [gapped, if_neg hc, List.map_cons, ih, withoutBlanks_cons (Bool.eq_false_iff.2 hc)]

theorem not_isBlank_of_mem_gapped {gap : Bool} {s : Text} {p : Bool × Char}
    (h : p ∈ gapped gap s) : isBlank p.2 = false := by
  have hmem : p.2 ∈ withoutBlanks s := map_snd_gapped gap s ▸ List.mem_map_of_mem h
  simpa using (List.mem_filter.1 hmem).2

/-- The same characters, with gaps before the same ones behind the character `last`, but for gaps at
a comma. -/
inductive Alike : (last : Char) → List (Bool × Char) → List (Bool × Char) → Prop
  | nil {last : Char} : Alike last [] []
  | cons {last c : Char} {gap gap' : Bool} {l l' : List (Bool × Char)} :
      (last ≠ ',' → c ≠ ',' → gap = gap') → Alike c l l' →
      Alike last ((gap, c) :: l) ((gap', c) :: l')

/-- A joined text tells where its spaces are, and they tell where there are gaps. -/
theorem joined_eq_iff {last : Char} {l l' : List (Bool × Char)}
    (hl : ∀ p ∈ l, isBlank p.2 = false) (hl' : ∀ p ∈ l', isBlank p.2 = false) :
    joined last l = joined last l' ↔ Alike last l l' := by
  have hspace : isBlank ' ' = true := by decide
  induction l generalizing last l' with
  | nil =>
    cases l' with
    | nil => exact iff_of_true rfl .nil
    | cons p l' =>
      refine iff_of_false (fun h => ?_) (fun h => by cases h)
      rw [joined, joined] at h
      split at h <;> cases h
  | cons p l ih =>
    obtain ⟨gap, c⟩ := p
    rw [List.forall_mem_cons] at hl
    cases l' with
    | nil =>
      refine iff_of_false (fun h => ?_) (fun h => by cases h)
      rw [joined, joined] at h
      split at h <;> cases h
    | cons p l' =>
      obtain ⟨gap', c'⟩ := p
      rw [List.forall_mem_cons] at hl'
      constructor
      · intro h
        have hboth : c = c' ∧ joined c l = joined c' l' ∧
            (gap && last != ',' && c != ',') = (gap' && last != ',' && c' != ',') := by
          rw [joined, joined] at h
          split at h <;> split at h <;> rename_i hgap hgap'
          · simp only [List.cons.injEq, true_and] at h
            exact ⟨h.1, h.2, hgap.trans hgap'.symm⟩
          · obtain ⟨rfl, -⟩ := List.cons.inj h
            cases hspace.symm.trans hl'.1
          · obtain ⟨rfl, -⟩ := List.cons.inj h
            cases hspace.symm.trans hl.1
          · obtain ⟨hc, hrest⟩ := List.cons.inj h
            exact ⟨hc, hrest,
              (Bool.eq_false_iff.2 hgap).trans (Bool.eq_false_iff.2 hgap').symm⟩
        obtain ⟨rfl, hrest, hgap⟩ := hboth
        refine .cons (fun hlast hc => ?_) ((ih hl.2 hl'.2).1 hrest)
        simpa only [bne_iff_ne.2 hlast, bne_iff_ne.2 hc, Bool.and_true] using hgap
      · intro h
        cases h with
        | cons hgap hrest =>
          have hrest := (ih hl.2 hl'.2).2 hrest
          have hshown : (gap && last != ',' && c != ',') = (gap' && last != ',' && c != ',') := by
            by_cases hlast : last = ','
            · simp [hlast]
            · by_cases hc : c = ','
              · simp [hc]
              · rw [hgap hlast hc]
          rw [joined, joined, hshown, hrest]

theorem alike_iff {last : Char} {l l' : List (Bool × Char)} :
    Alike last l l' ↔ l.map Prod.snd = l'.map Prod.snd ∧
      ∀ (i : Nat) (c d : Char), (last :: l.map Prod.snd)[i]? = some c →
        (l.map Prod.snd)[i]? = some d → c ≠ ',' → d ≠ ',' →
        (l.map Prod.fst)[i]? = (l'.map Prod.fst)[i]? := by
  induction l generalizing last l' with
  | nil =>
    cases l' with
    | nil => exact iff_of_true .nil ⟨rfl, fun _ _ _ _ _ _ _ => rfl⟩
    | cons p l' => exact iff_of_false (fun h => by cases h) fun h => by cases h.1
  | cons p l ih =>
    obtain ⟨gap, c⟩ := p
    cases l' with
    | nil => exact iff_of_false (fun h => by cases h) fun h => by cases h.1
    | cons p l' =>
      obtain ⟨gap', c'⟩ := p
      constructor
      · intro h
        cases h with
        | cons hgap hrest =>
          obtain ⟨hsame, hgaps⟩ := ih.1 hrest
          refine ⟨congrArg (c :: ·) hsame, fun i a b ha hb hacomma hbcomma => ?_⟩
          cases i with
          | zero =>
            obtain rfl := Option.some.inj ha
            obtain rfl := Option.some.inj hb
            exact congrArg some (hgap hacomma hbcomma)
          | succ i => exact hgaps i a b ha hb hacomma hbcomma
      · rintro ⟨hsame, hgaps⟩
        obtain ⟨rfl, hrest⟩ := List.cons.inj hsame
        refine .cons (fun hlast hc => ?_) (ih.2 ⟨hrest, fun i a b ha hb => ?_⟩)
        · exact Option.some.inj (hgaps 0 last c rfl rfl hlast hc)
        · exact hgaps (i + 1) a b ha hb

/-- Blanks stand right before the character of a text that has `i` characters before it, blanks
aside. -/
def BlankBefore (s : Text) (i : Nat) : Prop :=
  ∃ front c back, s = front ++ c :: back ∧ isBlank c = true ∧ (withoutBlanks front).length = i

theorem blankBefore_cons_of_isBlank {c : Char} (hc : isBlank c = true) {s : Text} {i : Nat} :
    BlankBefore (c :: s) i ↔ i = 0 ∨ BlankBefore s i := by
  constructor
  · rintro ⟨front, d, back, hs, hd, hlength⟩
    cases front with
    | nil => exact .inl hlength.symm
    | cons e front =>
      obtain ⟨rfl, rfl⟩ := List.cons.inj hs
      refine .inr ⟨front, d, back, rfl, hd, ?_⟩
      simpa [withoutBlanks, hc] using hlength
  · rintro (rfl | ⟨front, d, back, rfl, hd, hlength⟩)
    · exact ⟨[], c, s, rfl, hc, rfl⟩
    · exact ⟨c :: front, d, back, rfl, hd, by simpa [withoutBlanks, hc] using hlength⟩

theorem blankBefore_cons {c : Char} (hc : isBlank c = false) {s : Text} {i : Nat} :
    BlankBefore (c :: s) i ↔ ∃ j, i = j + 1 ∧ BlankBefore s j := by
  constructor
  · rintro ⟨front, d, back, hs, hd, hlength⟩
    cases front with
    | nil =>
      obtain ⟨rfl, -⟩ := List.cons.inj hs
      cases hc.symm.trans hd
    | cons e front =>
      obtain ⟨rfl, rfl⟩ := List.cons.inj hs
      refine ⟨(withoutBlanks front).length, ?_, front, d, back, rfl, hd, rfl⟩
      rw [← hlength]
      simp [withoutBlanks, hc]
  · rintro ⟨j, rfl, front, d, back, rfl, hd, rfl⟩
    exact ⟨c :: front, d, back, rfl, hd, by simp [withoutBlanks, hc]⟩

/-- A gap is where there are blanks, or at the front if there are blanks before the text. -/
theorem getElem?_gapped {gap : Bool} {s : Text} {i : Nat} (hi : i < (withoutBlanks s).length) :
    ((gapped gap s).map Prod.fst)[i]? = some true ↔ gap = true ∧ i = 0 ∨ BlankBefore s i := by
  induction s generalizing gap i with
  | nil => cases hi
  | cons c s ih =>
    by_cases hc : isBlank c = true
    · have hi : i < (withoutBlanks s).length := by simpa [withoutBlanks, hc] using hi
      rw [gapped, if_pos hc, ih hi, blankBefore_cons_of_isBlank hc]
      by_cases hzero : i = 0
      · simp [hzero]
      · simp [hzero]
    · rw [gapped, if_neg hc, List.map_cons, blankBefore_cons (Bool.eq_false_iff.2 hc)]
      cases i with
      | zero => simp
      | succ i =>
        have hi : i < (withoutBlanks s).length := by simpa [withoutBlanks, hc] using hi
        rw [List.getElem?_cons_succ, ih hi]
        simp

/-- Two heads with the same characters, blanks aside, and with blanks between the same neighbours,
unless one of the two is a comma. -/
@[mk_iff]
structure SameHead (s t : Text) : Prop where
  characters : withoutBlanks s = withoutBlanks t
  gaps : ∀ (i : Nat) (c d : Char), (withoutBlanks s)[i]? = some c →
    (withoutBlanks s)[i + 1]? = some d → c ≠ ',' → d ≠ ',' →
    (BlankBefore s (i + 1) ↔ BlankBefore t (i + 1))

/-- **Two heads have the same normal form if and only if they differ in nothing but the amount of
white space, and in white space at commas.** -/
theorem normalHead_eq_iff {s t : Text} : normalHead s = normalHead t ↔ SameHead s t := by
  rw [sameHead_iff, normalHead_eq_tighten, normalHead_eq_tighten, tightenFrom_eq_joined,
    tightenFrom_eq_joined,
    joined_eq_iff (fun _ => not_isBlank_of_mem_gapped) (fun _ => not_isBlank_of_mem_gapped),
    alike_iff, map_snd_gapped, map_snd_gapped]
  refine and_congr_right fun hsame => ?_
  -- Flags at the same place are the same if blanks are there in both heads or in none.
  have hgaps : ∀ i, i + 1 < (withoutBlanks s).length →
      (((gapped false s).map Prod.fst)[i + 1]? = ((gapped false t).map Prod.fst)[i + 1]? ↔
        (BlankBefore s (i + 1) ↔ BlankBefore t (i + 1))) := by
    intro i hi
    have hlength : ∀ u, withoutBlanks u = withoutBlanks t →
        i + 1 < ((gapped false u).map Prod.fst).length := by
      intro u hu
      have hlength := congrArg List.length (map_snd_gapped false u)
      rw [List.length_map] at hlength ⊢
      rwa [hlength, hu, ← hsame]
    have hs := @getElem?_gapped false s (i + 1) hi
    have ht := @getElem?_gapped false t (i + 1) (hsame ▸ hi)
    simp only [Bool.false_eq_true, false_and, false_or] at hs ht
    rw [← hs, ← ht, List.getElem?_eq_getElem (hlength s hsame),
      List.getElem?_eq_getElem (hlength t rfl), Option.some_inj, Option.some_inj, Option.some_inj]
    exact Bool.eq_iff_iff
  constructor
  · intro h i c d hc hd hcomma hcomma'
    exact (hgaps i (List.getElem?_eq_some_iff.1 hd).1).1 (h (i + 1) c d hc hd hcomma hcomma')
  · intro h i c d hc hd hcomma hcomma'
    cases i with
    | zero => exact absurd (Option.some.inj hc).symm hcomma
    | succ i =>
      exact (hgaps i (List.getElem?_eq_some_iff.1 hd).1).2 (h i c d hc hd hcomma hcomma')

/-- **The normal form of heads is canonical, and it survives printing.** It is in normal form, which
nothing but a normal form is, and taking it again changes nothing, also when it has been printed at
any depth in between; two heads have the same one if and only if they are the same head. -/
theorem normalHead_canonical :
    (∀ s, IsNormal (normalHead s) ∧ normalHead (normalHead s) = normalHead s ∧
      ∀ depth, normalHead (tabs depth ++ brokenHead depth (normalHead s)) = normalHead s) ∧
    (∀ n, IsNormal n ↔ normalHead n = n) ∧
    ∀ s t, normalHead s = normalHead t ↔ SameHead s t := by
  refine ⟨fun s => ?_, fun n => isNormal_iff_normalHead_eq, fun s t => normalHead_eq_iff⟩
  have hnormal := isNormal_normalHead s
  refine ⟨hnormal, isNormal_iff_normalHead_eq.1 hnormal, fun depth => ?_⟩
  have htabs : isBlankText (tabs depth) = true := by
    have htab : isBlank '\t' = true := by decide
    simp [isBlankText, tabs, htab]
  exact normalHead_brokenHead htabs depth s

example : normalHead "  .a ,\n .b  > p " = ".a,.b > p".toList := by decide

end Sheet

end UtilitySheet
