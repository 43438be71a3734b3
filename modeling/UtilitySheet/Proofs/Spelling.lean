import UtilitySheet.Proofs.ClassTable
import UtilitySheet.Proofs.Scanning

/-!
# Canonical spellings

The parts of a class name overlap: a breakpoint starts with another one, a key may be the letter
that makes the difference, a value may look like the mark of importance. With the built-in classes
a name in its canonical spelling is read back nevertheless (`Compiler.tokenize_canonical`): its
letters up to the first mark leave one breakpoint and one key (`ClassName.lead_unique`), and what
stands behind the key has one reading for each importance (`ClassName.tail_unique`).
-/

namespace UtilitySheet

open Text

/-! ## The built-in tables -/

/-- A table of words in small letters. -/
theorem lower_of_all {words : List Text}
    (h : words.all (fun w => !w.isEmpty && w.all Char.isLower) = true) :
    ∀ w ∈ words, w ≠ [] ∧ ∀ c ∈ w, c.isLower = true := by
  intro w hw
  obtain ⟨hne, hlower⟩ := Bool.and_eq_true_iff.1 (List.all_eq_true.1 h w hw)
  exact ⟨by simpa using hne, List.all_eq_true.1 hlower⟩

namespace ClassTable

/-- In a sound table a key belongs to one family. -/
theorem Sound.family_unique {t : ClassTable} (h : t.Sound) {f g : Family} {k : Text}
    (hf : k ∈ (t.pattern f).keys) (hg : k ∈ (t.pattern g).keys) : f = g := by
  obtain ⟨d, hd, rfl⟩ := List.mem_map.1 hf
  obtain ⟨e, he, heq⟩ := List.mem_map.1 hg
  obtain ⟨hd, hfamily⟩ := List.mem_filter.1 hd
  obtain ⟨he, hfamily'⟩ := List.mem_filter.1 he
  obtain rfl := List.inj_on_of_nodup_map h.nodup he hd heq
  exact (beq_iff_eq.1 hfamily).symm.trans (beq_iff_eq.1 hfamily')

/-- Built-in keys are small letters, none of them starting with the letter of importance. -/
theorem builtin_key : ∀ s ∈ seeds, s.key ≠ [] ∧ (∀ c ∈ s.key, c.isLower = true) ∧
    ∀ c ∈ s.key.head?, c ≠ 'i' := by
  have hmark : ∀ s ∈ seeds, s.key.head? ≠ some 'i' := by decide
  intro s hs
  have hall : (seeds.map ClassSeed.key).all (fun k => !k.isEmpty && k.all Char.isLower) = true := by
    decide
  obtain ⟨hne, hlower⟩ := lower_of_all hall s.key (List.mem_map_of_mem hs)
  refine ⟨hne, hlower, ?_⟩
  rintro c hc rfl
  exact hmark s hs hc

/-- No built-in key starts with a breakpoint. -/
theorem key_ne_breakpoint_append : ∀ s ∈ seeds, ∀ b ∈ Breakpoint.all.map Breakpoint.key,
    ¬ b <+: s.key := by decide

/-- A key that makes one breakpoint of another belongs to a class of numbers. -/
theorem numeric_of_breakpoint : ∀ s ∈ seeds, ∀ b ∈ Breakpoint.all.map Breakpoint.key,
    ∀ b' ∈ Breakpoint.all.map Breakpoint.key, b = b' ++ s.key →
      s.family.language.takesUnit = true := by decide

theorem exists_seed_of_mem_keys {f : Family} {k : Text} (h : k ∈ (builtin.pattern f).keys) :
    ∃ s ∈ seeds, s.key = k ∧ s.family = f := by
  obtain ⟨d, hd, rfl⟩ := List.mem_map.1 h
  obtain ⟨hd, hfamily⟩ := List.mem_filter.1 hd
  obtain ⟨i, hi, rfl⟩ := List.mem_mapIdx.1 hd
  exact ⟨seeds[i], List.getElem_mem hi, rfl, beq_iff_eq.1 hfamily⟩

end ClassTable

theorem Breakpoint.key_lower : ∀ b ∈ all.map key, ∀ c ∈ b, c.isLower = true :=
  fun b hb => (lower_of_all (by decide) b hb).2

theorem NumericUnit.key_lower : ∀ u ∈ suffixes.map key, u ≠ [] ∧ ∀ c ∈ u, c.isLower = true :=
  lower_of_all (by decide)

/-! ## Numbers and words -/

theorem Text.not_isLower_of_isDigit {c : Char} (h : isDigit c = true) : c.isLower = false := by
  have hletters : ∀ n ∈ List.range' 97 26, inRanges decimalDigits n = false := by decide
  refine Bool.eq_false_iff.2 fun hlower => ?_
  have hmem : c.toNat ∈ List.range' 97 26 := by
    obtain ⟨hlow, hhigh⟩ := Bool.and_eq_true_iff.1 hlower
    have hlow : 97 ≤ c.toNat := UInt32.le_iff_toNat_le.1 (of_decide_eq_true hlow)
    have hhigh : c.toNat ≤ 122 := UInt32.le_iff_toNat_le.1 (of_decide_eq_true hhigh)
    exact List.mem_range'_1.2 ⟨hlow, Nat.lt_succ_of_le hhigh⟩
  rw [isDigit, hletters _ hmem] at h
  cases h

namespace ValueLanguage

variable {l : ValueLanguage} {v : Text}

/-- A value that a unit may follow is a reserved word or holds no small letter. -/
theorem Accepts.reserved_or_number (hl : l.takesUnit = true) (h : l.Accepts v) :
    v ∈ reservedValues ∨ v ≠ [] ∧ ∀ c ∈ v, c.isLower = false := by
  have hnumber : ∀ {s : Text}, IsUnsigned s → ∀ c ∈ s, c.isLower = false := fun h =>
    h.forall_mem (fun _ hc => not_isLower_of_isDigit hc) (by decide)
  cases h with
  | keyword hw => cases hl
  | identifier _ _ => cases hl
  | unsigned h => exact .inr ⟨h.ne_nil, hnumber h⟩
  | negative h =>
    refine .inr ⟨by simp, fun c hc => ?_⟩
    rcases List.mem_cons.1 hc with rfl | hc
    · decide
    · exact hnumber h c hc
  | reserved h => exact .inl h
  | hexadecimal _ => cases hl
  | colorName _ _ => cases hl

theorem reserved_lower : ∀ v ∈ reservedValues, v ≠ [] ∧ ∀ c ∈ v, c.isLower = true :=
  lower_of_all (by decide)

/-- No reserved word starts with another one. -/
theorem reserved_unique {v v' x x' : Text} (hv : v ∈ reservedValues) (hv' : v' ∈ reservedValues)
    (h : v ++ x = v' ++ x') : v = v' := by
  have hbegins : ∀ v ∈ reservedValues, ∀ v' ∈ reservedValues, v <+: v' → v = v' := by
    decide
  rcases List.prefix_or_prefix_of_prefix (List.prefix_append v x)
    (h ▸ List.prefix_append v' x') with hle | hle
  · exact hbegins v hv v' hv' hle
  · exact (hbegins v' hv' v hv hle).symm

/-- A value and its unit are told apart. -/
theorem value_unit_unique {v' : Text} {u u' : Option Text} (hv : l.Accepts v) (hv' : l.Accepts v')
    (hu : ∀ x ∈ u, l.takesUnit = true ∧ x ∈ NumericUnit.suffixes.map NumericUnit.key)
    (hu' : ∀ x ∈ u', l.takesUnit = true ∧ x ∈ NumericUnit.suffixes.map NumericUnit.key)
    (h : v ++ u.getD [] = v' ++ u'.getD []) : v = v' ∧ u = u' := by
  have hunit : ∀ {u : Option Text},
      (∀ x ∈ u, l.takesUnit = true ∧ x ∈ NumericUnit.suffixes.map NumericUnit.key) →
      (∀ c ∈ (u.getD []).head?, (!c.isLower) = false) ∧ (u.getD [] = [] → u = none) := by
    intro u hu
    cases u with
    | none => exact ⟨by simp, fun _ => rfl⟩
    | some x =>
      obtain ⟨hne, hlower⟩ := NumericUnit.key_lower x (hu x rfl).2
      refine ⟨fun c hc => ?_, fun hnil => absurd hnil hne⟩
      simp [hlower c (List.mem_of_mem_head? hc)]
  have hsame : v = v' → u = u' := by
    rintro rfl
    have hget := List.append_cancel_left h
    cases u with
    | none => exact ((hunit hu').2 hget.symm).symm
    | some x =>
      cases u' with
      | none => exact (hunit hu).2 hget
      | some x' => exact congrArg some hget
  have hmixed : ∀ {v v' x x' : Text}, v ∈ reservedValues → v' ≠ [] →
      (∀ c ∈ v', c.isLower = false) → v ++ x ≠ v' ++ x' := by
    intro v v' x x' hv hne hnumber h
    obtain ⟨hne', hlower⟩ := reserved_lower v hv
    obtain ⟨c, v, rfl⟩ := List.exists_cons_of_ne_nil hne'
    obtain ⟨c', v', rfl⟩ := List.exists_cons_of_ne_nil hne
    have hc := hlower c List.mem_cons_self
    rw [(List.cons.inj h).1, hnumber c' List.mem_cons_self] at hc
    cases hc
  suffices hvalue : v = v' from ⟨hvalue, hsame hvalue⟩
  by_cases hl : l.takesUnit = true
  · rcases hv.reserved_or_number hl with hword | ⟨hne, hnumber⟩ <;>
      rcases hv'.reserved_or_number hl with hword' | ⟨hne', hnumber'⟩
    · exact reserved_unique hword hword' h
    · exact absurd h (hmixed hword hne' hnumber')
    · exact absurd h.symm (hmixed hword' hne hnumber)
    · exact (append_inj_stop (p := fun c => !c.isLower) (by simpa using hnumber)
        (by simpa using hnumber') (hunit hu).1 (hunit hu').1 h).1
  · have hnone : ∀ {u : Option Text},
        (∀ x ∈ u, l.takesUnit = true ∧ x ∈ NumericUnit.suffixes.map NumericUnit.key) →
        u = none := fun hu => Option.eq_none_iff_forall_not_mem.2 fun x hx => hl (hu x hx).1
    rw [hnone hu, hnone hu'] at h
    simpa using h

/-- A value that a unit may follow does not start like the mark of importance. -/
theorem Accepts.ne_mark (hl : l.takesUnit = true) (h : l.Accepts v) {m : Char}
    (hm : m.isLower = false) {x t : Text} : v ++ x ≠ 'i' :: m :: t := by
  intro hv
  rcases h.reserved_or_number hl with hreserved | ⟨hne, hnumber⟩
  · have hlong : ∀ v ∈ reservedValues, 2 ≤ v.length := by decide
    match v, hlong v hreserved, reserved_lower v hreserved with
    | a :: b :: v, _, ⟨_, hlower⟩ =>
      have hb := hlower b (by simp)
      rw [(List.cons.inj (List.cons.inj hv).2).1, hm] at hb
      cases hb
  · obtain ⟨a, v, rfl⟩ := List.exists_cons_of_ne_nil hne
    have ha := hnumber a List.mem_cons_self
    rw [(List.cons.inj hv).1] at ha
    exact absurd ha (by decide)

/-- Of the values that no unit follows only an identifier starts like the mark of importance. -/
theorem Accepts.fontFamily_of_mark {f : Family} (hl : f.language.takesUnit = false) {m : Char}
    (hm : m = '-' ∨ m = '_') {t : Text} (h : f.language.Accepts ('i' :: m :: t)) :
    f = .fontFamily := by
  have hwords : ∀ f ∈ Family.all, ∀ w ∈ f.language.words,
      w.take 2 ≠ ['i', '-'] ∧ w.take 2 ≠ ['i', '_'] := by decide
  have hfamily : ∀ f ∈ Family.all, f.language = .identifier → f = .fontFamily := by decide
  have hword := hwords f (Family.mem_all f)
  have hfamily := hfamily f (Family.mem_all f)
  generalize hv : 'i' :: m :: t = v at h
  generalize f.language = l at h hl hword hfamily
  cases h with
  | keyword hw =>
    have hne := hword _ (List.mem_map_of_mem hw)
    rw [← hv] at hne
    rcases hm with rfl | rfl
    · exact absurd rfl hne.1
    · exact absurd rfl hne.2
  | identifier _ _ => exact hfamily rfl
  | unsigned _ => cases hl
  | negative _ => cases hl
  | reserved _ => cases hl
  | hexadecimal hhex =>
    simp only [isHexColor, Bool.and_eq_true, ← hv, List.all_cons] at hhex
    exact absurd hhex.2.1 (by decide)
  | colorName _ hall =>
    have hlower := hall m (by simp [← hv])
    rcases hm with rfl | rfl <;> exact absurd hlower (by decide)

end ValueLanguage

/-! ## Names -/

namespace ClassName

/-- The canonical spelling: a hyphen behind the breakpoint, and none before a key that stands
first. -/
def canonical (name : ClassName) (joint : Text) : Text :=
  name.written (if name.breakpoint.isSome then ['-'] else []) joint

variable {name name' : ClassName} {joint joint' : Text}

theorem eq_of_parts (htext : name.text = name'.text) (hbreakpoint : name.breakpoint = name'.breakpoint)
    (hkey : name.key = name'.key) (himportant : name.important = name'.important)
    (hpseudo : name.pseudo = name'.pseudo) (hvalue : name.value = name'.value)
    (hunit : name.unit = name'.unit) : name = name' := by
  cases name
  cases name'
  simp_all

theorem joint_eq_cons (hjoint : joint ∈ [['_', '_'], ['_']]) : ∃ t, joint = '_' :: t := by
  rw [List.mem_cons, List.mem_singleton] at hjoint
  rcases hjoint with rfl | rfl
  · exact ⟨['_'], rfl⟩
  · exact ⟨[], rfl⟩

/-- Behind the key stands a mark. -/
theorem tail_eq_cons (name : ClassName) (hjoint : joint ∈ [['_', '_'], ['_']]) :
    ∃ c t, name.tail joint = c :: t ∧ (c = '-' ∨ c = '_') := by
  obtain ⟨j, rfl⟩ := joint_eq_cons hjoint
  unfold tail
  split
  · exact ⟨'-', _, rfl, .inl rfl⟩
  · cases name.pseudo with
    | none => exact ⟨'-', _, rfl, .inl rfl⟩
    | some k => exact ⟨'_', _, rfl, .inr rfl⟩

theorem not_isLower_of_mark {c : Char} (h : c = '-' ∨ c = '_') : c.isLower = false := by
  rcases h with rfl | rfl <;> decide

/-- A number behind a key does not look like a hyphen and another key. -/
theorem tail_ne_hyphen_key {l : ValueLanguage} (hl : l.takesUnit = true)
    (hvalue : l.Accepts name.value)
    (hunit : ∀ u ∈ name.unit, l.takesUnit = true ∧ u ∈ NumericUnit.suffixes.map NumericUnit.key)
    (hjoint : joint ∈ [['_', '_'], ['_']]) {s : ClassSeed} (hs : s ∈ ClassTable.seeds) {c : Char}
    {t : Text} (hc : c.isLower = false) : name.tail joint ≠ '-' :: (s.key ++ c :: t) := by
  intro h
  obtain ⟨hne, hlower, hfirst⟩ := ClassTable.builtin_key s hs
  obtain ⟨d, k, hkey⟩ := List.exists_cons_of_ne_nil hne
  rw [hkey] at hlower hfirst h
  unfold tail at h
  cases hi : name.important with
  | true =>
    rw [hi, if_pos rfl] at h
    exact hfirst d rfl (List.cons.inj (List.cons.inj h).2).1.symm
  | false =>
    simp only [hi, Bool.false_eq_true, if_false, List.nil_append] at h
    cases hpseudo : name.pseudo with
    | some p =>
      obtain ⟨j, rfl⟩ := joint_eq_cons hjoint
      rw [hpseudo] at h
      exact absurd (List.cons.inj h).1 (by decide)
    | none =>
      rw [hpseudo] at h
      have h : name.value ++ name.unit.getD [] = d :: k ++ c :: t := (List.cons.inj h).2
      rcases hvalue.reserved_or_number hl with hword | ⟨hne, hnumber⟩
      · have hletters : ∀ c ∈ name.value ++ name.unit.getD [], c.isLower = true := by
          intro c hc
          rcases List.mem_append.1 hc with hc | hc
          · exact (ValueLanguage.reserved_lower _ hword).2 c hc
          · cases hu : name.unit with
            | none => rw [hu] at hc; cases hc
            | some u =>
              rw [hu] at hc
              exact (NumericUnit.key_lower u (hunit u hu).2).2 c hc
        have hcl := hletters c (by rw [h]; simp)
        rw [hc] at hcl
        cases hcl
      · obtain ⟨e, v, hv⟩ := List.exists_cons_of_ne_nil hne
        rw [hv] at h hnumber
        have hd := hlower d List.mem_cons_self
        rw [← (List.cons.inj h).1, hnumber e List.mem_cons_self] at hd
        cases hd

/-- The letters up to the first mark leave one breakpoint and one key. -/
theorem lead_unique {f g : Family} (h : (ClassTable.builtin.pattern f).HasParts name)
    (h' : (ClassTable.builtin.pattern g).HasParts name') (hjoint : joint ∈ [['_', '_'], ['_']])
    (hjoint' : joint' ∈ [['_', '_'], ['_']]) {hyphen : Text} (hhyphen : hyphen ∈ [[], ['-']])
    (heq : name.canonical joint = name'.written hyphen joint') :
    name'.breakpoint = name.breakpoint ∧ name'.key = name.key ∧
      name'.tail joint' = name.tail joint := by
  obtain ⟨s, hs, hkey, rfl⟩ := ClassTable.exists_seed_of_mem_keys h.key
  obtain ⟨s', hs', hkey', rfl⟩ := ClassTable.exists_seed_of_mem_keys h'.key
  obtain ⟨hne, hlower, -⟩ := ClassTable.builtin_key s hs
  obtain ⟨hne', hlower', -⟩ := ClassTable.builtin_key s' hs'
  obtain ⟨m, r, htail, hmark⟩ := name.tail_eq_cons hjoint
  obtain ⟨m', r', htail', hmark'⟩ := name'.tail_eq_cons hjoint'
  have hm := not_isLower_of_mark hmark
  have hm' := not_isLower_of_mark hmark'
  -- Text of letters, then a mark: the letters on both sides are the same.
  have hsplit : ∀ {k k' : Text} {c c' : Char} {t t' : Text}, (∀ c ∈ k, c.isLower = true) →
      (∀ c ∈ k', c.isLower = true) → c.isLower = false → c'.isLower = false →
      k ++ c :: t = k' ++ c' :: t' → k = k' ∧ c :: t = c' :: t' := by
    intro k k' c c' t t' hk hk' hc hc' h
    exact append_inj_stop hk hk' (by simpa using hc) (by simpa using hc') h
  have hnil : ∀ c ∈ ([] : Text), c.isLower = true := by simp
  have hhyphen' : ('-' : Char).isLower = false := by decide
  simp only [canonical, written, ← hkey, ← hkey', htail, htail'] at heq ⊢
  rw [List.mem_cons, List.mem_singleton] at hhyphen
  cases hb : name.breakpoint with
  | none =>
    rw [hb] at heq
    cases hb' : name'.breakpoint with
    | none =>
      rw [hb'] at heq
      rcases hhyphen with rfl | rfl
      · obtain ⟨hk, ht⟩ := hsplit hlower hlower' hm hm' heq
        exact ⟨rfl, hk.symm, ht.symm⟩
      · exact absurd (hsplit hlower hnil hm hhyphen' heq).1 hne
    | some b' =>
      have hlowerb := Breakpoint.key_lower b' (h'.breakpoint b' hb')
      rw [hb'] at heq
      rcases hhyphen with rfl | rfl
      · have hboth : ∀ c ∈ b' ++ s'.key, c.isLower = true := fun c hc =>
          (List.mem_append.1 hc).elim (hlowerb c) (hlower' c)
        have heq : s.key ++ m :: r = (b' ++ s'.key) ++ m' :: r' := by simpa using heq
        exact absurd ⟨s'.key, (hsplit hlower hboth hm hm' heq).1.symm⟩
          (ClassTable.key_ne_breakpoint_append s hs b' (h'.breakpoint b' hb'))
      · exact absurd ⟨[], (List.append_nil b').trans (hsplit hlower hlowerb hm hhyphen' heq).1.symm⟩
          (ClassTable.key_ne_breakpoint_append s hs b' (h'.breakpoint b' hb'))
  | some b =>
    have hlowerb := Breakpoint.key_lower b (h.breakpoint b hb)
    have hneb : b ≠ [] :=
      (by decide : ∀ b ∈ Breakpoint.all.map Breakpoint.key, b ≠ []) b (h.breakpoint b hb)
    rw [hb] at heq
    cases hb' : name'.breakpoint with
    | none =>
      rw [hb'] at heq
      rcases hhyphen with rfl | rfl
      · exact absurd ⟨[], (List.append_nil b).trans (hsplit hlowerb hlower' hhyphen' hm' heq).1⟩
          (ClassTable.key_ne_breakpoint_append s' hs' b (h.breakpoint b hb))
      · exact absurd (hsplit hlowerb hnil hhyphen' hhyphen' heq).1 hneb
    | some b' =>
      have hlowerb' := Breakpoint.key_lower b' (h'.breakpoint b' hb')
      rw [hb'] at heq
      rcases hhyphen with rfl | rfl
      -- `md` and the key `l` or `p`: what follows would be a number that starts with a key.
      · have hboth : ∀ c ∈ b' ++ s'.key, c.isLower = true := fun c hc =>
          (List.mem_append.1 hc).elim (hlowerb' c) (hlower' c)
        have heq : b ++ '-' :: (s.key ++ m :: r) = (b' ++ s'.key) ++ m' :: r' := by
          simpa using heq
        obtain ⟨hletters, hrest⟩ := hsplit hlowerb hboth hhyphen' hm' heq
        have hl := ClassTable.numeric_of_breakpoint s' hs' b (h.breakpoint b hb) b'
          (h'.breakpoint b' hb') hletters
        exact absurd (htail'.trans hrest.symm) (tail_ne_hyphen_key hl h'.value h'.unit hjoint' hs hm)
      · obtain ⟨rfl, hrest⟩ := hsplit hlowerb hlowerb' hhyphen' hhyphen' heq
        obtain ⟨hk, ht⟩ := hsplit hlower hlower' hm hm' (List.cons.inj hrest).2
        exact ⟨rfl, hk.symm, ht.symm⟩

/-- What stands between the mark of importance and the hyphen before the value. -/
theorem pseudo_unique {k k' : Option Text} {v v' : Text}
    (hk : ∀ x ∈ k, x ∈ PseudoClass.all.map PseudoClass.key)
    (hk' : ∀ x ∈ k', x ∈ PseudoClass.all.map PseudoClass.key)
    (hjoint : joint ∈ [['_', '_'], ['_']]) (hjoint' : joint' ∈ [['_', '_'], ['_']])
    (h : k.elim [] (joint ++ ·) ++ '-' :: v = k'.elim [] (joint' ++ ·) ++ '-' :: v') :
    k = k' ∧ v = v' := by
  -- The part holds no hyphen, so the first hyphen ends it.
  have hnone : ∀ {k : Option Text} {joint : Text},
      (∀ x ∈ k, x ∈ PseudoClass.all.map PseudoClass.key) → joint ∈ [['_', '_'], ['_']] →
      ∀ c ∈ k.elim [] (joint ++ ·), (c != '-') = true := by
    intro k joint hk hjoint
    cases k with
    | none => exact fun c hc => nomatch hc
    | some x =>
      have hall : ∀ joint ∈ [['_', '_'], ['_']], ∀ x ∈ PseudoClass.all.map PseudoClass.key,
          (joint ++ x).all (· != '-') = true := by decide
      exact List.all_eq_true.1 (hall joint hjoint x (hk x rfl))
  obtain ⟨hpart, hrest⟩ := append_inj_stop (hnone hk hjoint) (hnone hk' hjoint') (by simp)
    (by simp) h
  refine ⟨?_, (List.cons.inj hrest).2⟩
  obtain ⟨j, hj⟩ := joint_eq_cons hjoint
  obtain ⟨j', hj'⟩ := joint_eq_cons hjoint'
  cases k with
  | none =>
    cases k' with
    | none => rfl
    | some x' => simp [hj'] at hpart
  | some x =>
    cases k' with
    | none => simp [hj] at hpart
    | some x' =>
      have hall : ∀ joint ∈ [['_', '_'], ['_']], ∀ joint' ∈ [['_', '_'], ['_']],
          ∀ x ∈ PseudoClass.all.map PseudoClass.key, ∀ x' ∈ PseudoClass.all.map PseudoClass.key,
          joint ++ x = joint' ++ x' → x = x' := by decide
      exact congrArg some
        (hall joint hjoint joint' hjoint' x (hk x rfl) x' (hk' x' rfl) hpart)

variable {p p' : Pattern}

/-- What stands behind the key has one reading for each importance. -/
theorem tail_unique (h : p.HasParts name) (h' : p.HasParts name')
    (hjoint : joint ∈ [['_', '_'], ['_']]) (hjoint' : joint' ∈ [['_', '_'], ['_']])
    (himportant : name.important = name'.important) (htail : name.tail joint = name'.tail joint') :
    name.pseudo = name'.pseudo ∧ name.value = name'.value ∧ name.unit = name'.unit := by
  unfold tail at htail
  rw [himportant] at htail
  obtain ⟨hpseudo, hrest⟩ :=
    pseudo_unique h.pseudo h'.pseudo hjoint hjoint' (List.append_cancel_left htail)
  exact ⟨hpseudo, ValueLanguage.value_unit_unique h.value h'.value h.unit h'.unit hrest⟩

/-- Only an identifier can hold what another reading takes for the mark of importance. -/
theorem identifier_of_important (h : p.HasParts name) (hjoint : joint ∈ [['_', '_'], ['_']])
    (hjoint' : joint' ∈ [['_', '_'], ['_']]) (hplain : name.important = false)
    (himportant : name'.important = true) (htail : name.tail joint = name'.tail joint') :
    p.family = .fontFamily ∧ (['i', '-'] <+: name.value ∨ ['i', '_'] <+: name.value) := by
  -- The value and unit start with the letter and a mark.
  obtain ⟨m, t, hm, hvalue⟩ : ∃ m t, (m = '-' ∨ m = '_') ∧
      name.value ++ name.unit.getD [] = 'i' :: m :: t := by
    unfold tail at htail
    rw [hplain, himportant] at htail
    obtain ⟨j, rfl⟩ := joint_eq_cons hjoint
    obtain ⟨j', rfl⟩ := joint_eq_cons hjoint'
    cases hp : name.pseudo with
    | some x =>
      rw [hp] at htail
      exact absurd (List.cons.inj htail).1 (by decide)
    | none =>
      rw [hp] at htail
      have hrest := (List.cons.inj htail).2
      cases hp' : name'.pseudo with
      | none => rw [hp'] at hrest; exact ⟨'-', _, .inl rfl, hrest⟩
      | some x' => rw [hp'] at hrest; exact ⟨'_', _, .inr rfl, hrest⟩
  by_cases hl : p.family.language.takesUnit = true
  · exact absurd hvalue (h.value.ne_mark hl (not_isLower_of_mark hm))
  · have hnone : name.unit = none :=
      Option.eq_none_iff_forall_not_mem.2 fun u hu => hl (h.unit u hu).1
    rw [hnone, Option.getD_none, List.append_nil] at hvalue
    refine ⟨?_, ?_⟩
    · exact (hvalue ▸ h.value).fontFamily_of_mark (Bool.eq_false_iff.2 hl) hm
    · rcases hm with rfl | rfl
      · exact .inl ⟨t, hvalue.symm⟩
      · exact .inr ⟨t, hvalue.symm⟩

end ClassName

/-! ## The preferred reading -/

/-- If all results come from one element, the first result is the first of that element. -/
theorem head?_flatMap_eq {α β : Type} {f : α → List β} {a : α} {l : List α} (ha : a ∈ l)
    (h : ∀ b ∈ l, f b ≠ [] → b = a) : (l.flatMap f).head? = (f a).head? := by
  induction l with
  | nil => cases ha
  | cons b l ih =>
    have hl : ∀ c ∈ l, f c ≠ [] → c = a := fun c hc => h c (List.mem_cons_of_mem b hc)
    rw [List.flatMap_cons]
    by_cases hb : f b = []
    · rw [hb, List.nil_append]
      rcases List.mem_cons.1 ha with rfl | ha
      · have hnil : l.flatMap f = [] := List.flatMap_eq_nil_iff.2 fun c hc =>
          Classical.byContradiction fun hne => hne (hl c hc hne ▸ hb)
        rw [hnil, hb]
      · exact ih ha hl
    · obtain rfl := h b List.mem_cons_self hb
      exact List.head?_append_of_ne_nil _ hb

namespace Pattern

variable {p : Pattern} {s rest : Text} {breakpoint : Option Text} {key : Text} {name : ClassName}

theorem of_mem_front (h : ((breakpoint, key), rest) ∈ p.front s) :
    (∀ b ∈ breakpoint, b ∈ Breakpoint.all.map Breakpoint.key) ∧ key ∈ p.keys ∧
      ∃ hyphen ∈ [[], ['-']], s = breakpoint.getD [] ++ (hyphen ++ (key ++ rest)) := by
  obtain ⟨⟨b, t⟩, hlead, h⟩ := List.mem_flatMap.1 h
  obtain ⟨⟨k, u⟩, hkey, h⟩ := List.mem_map.1 h
  obtain ⟨hbk, rfl⟩ := Prod.mk.inj h
  obtain ⟨rfl, rfl⟩ := Prod.mk.inj hbk
  obtain ⟨hb, hyphen, hhyphen, rfl⟩ := mem_lead.1 hlead
  obtain ⟨hk, rfl⟩ := Reader.mem_oneOf.1 hkey
  exact ⟨hb, hk, hyphen, hhyphen, rfl⟩

/-- What stands behind the mark of importance, and the parts that it is put together with. -/
theorem of_mem_back {important : Bool} (h : (name, rest) ∈ p.back breakpoint key important s) :
    name.breakpoint = breakpoint ∧ name.key = key ∧ name.important = important ∧
      (∀ k ∈ name.pseudo, k ∈ PseudoClass.all.map PseudoClass.key) ∧
      p.family.language.Accepts name.value ∧
      (∀ u ∈ name.unit, p.family.language.takesUnit = true ∧
        u ∈ NumericUnit.suffixes.map NumericUnit.key) ∧
      ∃ joint ∈ [['_', '_'], ['_']], s = name.pseudo.elim [] (joint ++ ·) ++
        '-' :: (name.value ++ name.unit.getD []) ++ rest := by
  simp only [back, Reader.bind, List.mem_flatMap, List.mem_map, Prod.exists] at h
  obtain ⟨pseudo, s₁, hpseudo, mark, s₂, hmark, value, s₃, hvalue, unit, s₄, hunit, h⟩ := h
  obtain ⟨rfl, rfl⟩ := Prod.mk.inj h
  obtain ⟨hk, joint, hjoint, rfl⟩ := mem_pseudoClass.1 hpseudo
  obtain ⟨hone, rfl⟩ := Reader.mem_oneOf.1 hmark
  obtain rfl := List.mem_singleton.1 hone
  obtain ⟨hu, rfl⟩ := ValueLanguage.mem_unit.1 hunit
  have haccepts := ValueLanguage.accepts_of_mem_value hvalue
  obtain rfl := ValueLanguage.eq_append_of_mem_value hvalue
  exact ⟨rfl, rfl, rfl, hk, haccepts, hu, joint, hjoint, by simp⟩

/-- Importance is tried first. -/
theorem importance_eq_append (s : Text) :
    ∃ marked, importance s = marked ++ [(false, s)] ∧ ∀ x ∈ marked, x.1 = true := by
  refine ⟨(Reader.oneOf ["-i"] s).map fun x => (true, x.2), ?_, by simp⟩
  simp [importance, Reader.maybe, Function.comp_def]

/-- The names that are put together behind a breakpoint and a key. -/
def wholes (p : Pattern) (y : (Option Text × Text) × Text) : List (ClassName × Text) :=
  (importance.bind (p.back y.1.1 y.1.2) y.2).filter fun (_, rest) => rest.isEmpty

theorem splits_eq_wholes (p : Pattern) (t : Text) :
    p.splits t = ((p.front t).flatMap p.wholes).map fun (name, _) => { name with text := t } := by
  rw [splits, parts, Reader.bind, List.filter_flatMap]
  rfl

theorem of_mem_wholes {y : (Option Text × Text) × Text} (h : (name, rest) ∈ p.wholes y) :
    name.breakpoint = y.1.1 ∧ name.key = y.1.2 ∧
      (∀ k ∈ name.pseudo, k ∈ PseudoClass.all.map PseudoClass.key) ∧
      p.family.language.Accepts name.value ∧
      (∀ u ∈ name.unit, p.family.language.takesUnit = true ∧
        u ∈ NumericUnit.suffixes.map NumericUnit.key) ∧
      ∃ joint ∈ [['_', '_'], ['_']], y.2 = name.tail joint := by
  obtain ⟨h, hrest⟩ := List.mem_filter.1 h
  obtain rfl := List.isEmpty_iff.1 hrest
  obtain ⟨⟨important, s⟩, hmark, h⟩ := List.mem_flatMap.1 h
  obtain ⟨hb, hk, rfl, hpseudo, hvalue, hunit, joint, hjoint, rfl⟩ := of_mem_back h
  refine ⟨hb, hk, hpseudo, hvalue, hunit, joint, hjoint, ?_⟩
  rw [mem_importance.1 hmark, List.append_nil]
  rfl

/-- Of the names behind a breakpoint and a key the first one is important if any is. -/
theorem important_of_head?_wholes {y : (Option Text × Text) × Text} {x x' : ClassName × Text}
    (hhead : (p.wholes y).head? = some x) (hmem : x' ∈ p.wholes y)
    (himportant : x'.1.important = true) : x.1.important = true := by
  obtain ⟨marked, heq, hmarked⟩ := importance_eq_append y.2
  let F := fun z : Bool × Text => (p.back y.1.1 y.1.2 z.1 z.2).filter fun (_, rest) => rest.isEmpty
  have hwholes : p.wholes y = marked.flatMap F ++ F (false, y.2) := by
    rw [wholes, Reader.bind, heq, List.filter_flatMap, List.flatMap_append, List.flatMap_singleton]
  have hF : ∀ z, ∀ x ∈ F z, x.1.important = z.1 := fun z x hx =>
    (of_mem_back (List.mem_filter.1 hx).1).2.2.1
  rw [hwholes] at hhead hmem
  have hx' : x' ∈ marked.flatMap F := by
    refine (List.mem_append.1 hmem).resolve_right fun hx' => ?_
    rw [hF _ x' hx'] at himportant
    cases himportant
  rw [List.head?_append_of_ne_nil _ (List.ne_nil_of_mem hx')] at hhead
  obtain ⟨z, hz, hx⟩ := List.mem_flatMap.1 (List.mem_of_mem_head? hhead)
  rw [hF z x hx, hmarked z hz]

end Pattern

section Canonical

open ClassTable

variable {f g : Family} {name : ClassName} {joint : Text}

/-- Every reading of a canonical spelling has its breakpoint, its key and what stands behind. -/
theorem Pattern.front_unique (h : (builtin.pattern f).HasParts name)
    (hjoint : joint ∈ [['_', '_'], ['_']]) {y : (Option Text × Text) × Text}
    (hy : y ∈ (builtin.pattern g).front (name.canonical joint))
    (hne : (builtin.pattern g).wholes y ≠ []) :
    y = ((name.breakpoint, name.key), name.tail joint) := by
  obtain ⟨⟨other, rest⟩, hother⟩ := List.exists_mem_of_ne_nil _ hne
  obtain ⟨hbreakpoint, hkey, hyphen, hhyphen, htext⟩ := of_mem_front hy
  obtain ⟨hb, hk, hpseudo, hvalue, hunit, joint', hjoint', htail⟩ := of_mem_wholes hother
  have hparts : (builtin.pattern g).HasParts other :=
    ⟨hb ▸ hbreakpoint, hk ▸ hkey, hpseudo, hvalue, hunit⟩
  have hwritten : name.canonical joint = other.written hyphen joint' := by
    rw [htext, ← hb, ← hk, htail, ClassName.written]
  obtain ⟨hb', hk', htail'⟩ := ClassName.lead_unique h hparts hjoint hjoint' hhyphen hwritten
  obtain ⟨⟨b, k⟩, t⟩ := y
  simp only at hb hk htail
  rw [← hb, ← hk, htail, hb', hk', htail']

theorem ClassTable.isUnbroken_builtin : ∀ d ∈ builtin.classes, isUnbroken d.key = true := by
  decide

theorem Pattern.HasParts.isUnbroken_canonical (h : (builtin.pattern f).HasParts name)
    (hjoint : joint ∈ [['_', '_'], ['_']]) : isUnbroken (name.canonical joint) = true := by
  refine h.isUnbroken_written (isUnbroken_keys isUnbroken_builtin f) ?_ hjoint
  split <;> decide

/-- An important name in canonical spelling is not read as one that is not important. -/
theorem Pattern.important_of_head?_splits (h : (builtin.pattern f).HasParts name)
    (hjoint : joint ∈ [['_', '_'], ['_']])
    (hmem : name ∈ (builtin.pattern f).splits (name.canonical joint))
    (himportant : name.important = true) {other : ClassName}
    (hhead : ((builtin.pattern f).splits (name.canonical joint)).head? = some other) :
    other.important = true := by
  rw [splits_eq_wholes] at hhead hmem
  obtain ⟨x', hx', hname⟩ := List.mem_map.1 hmem
  obtain ⟨y, hy, hx'⟩ := List.mem_flatMap.1 hx'
  have hone : ∀ z ∈ (builtin.pattern f).front (name.canonical joint),
      (builtin.pattern f).wholes z ≠ [] → z = y := fun z hz hne =>
    (front_unique h hjoint hz hne).trans
      (front_unique h hjoint hy (List.ne_nil_of_mem hx')).symm
  rw [List.head?_map, head?_flatMap_eq hy hone] at hhead
  obtain ⟨x, hx, rfl⟩ := Option.map_eq_some_iff.1 hhead
  exact important_of_head?_wholes hx hx' ((congrArg ClassName.important hname).trans himportant)

/-- With the built-in classes a canonical spelling is read in the family of its key only, and as
the name that it spells. -/
theorem Pattern.head?_splits_canonical (h : (builtin.pattern f).HasParts name)
    (hjoint : joint ∈ [['_', '_'], ['_']]) (htext : name.text = name.canonical joint)
    (hvalue : f = .fontFamily → ¬ ['i', '-'] <+: name.value ∧ ¬ ['i', '_'] <+: name.value) :
    ((builtin.pattern g).splits (name.canonical joint)).head? = if g = f then some name else none := by
  have hunbroken := h.isUnbroken_canonical hjoint
  have hspells : ∀ {g other}, other ∈ (builtin.pattern g).splits (name.canonical joint) ↔
      (builtin.pattern g).Spells other (name.canonical joint) := fun {g _} =>
    mem_splits (isUnbroken_keys isUnbroken_builtin g) hunbroken
  have hname : name ∈ (builtin.pattern f).splits (name.canonical joint) := by
    refine hspells.2 ⟨h, htext, _, ?_, joint, hjoint, rfl⟩
    split <;> decide
  cases hhead : ((builtin.pattern g).splits (name.canonical joint)).head? with
  | none =>
    refine (if_neg ?_).symm
    rintro rfl
    rw [List.head?_eq_none_iff.1 hhead] at hname
    cases hname
  | some other =>
    obtain ⟨hparts, hother, hyphen, hhyphen, joint', hjoint', hwritten⟩ :=
      hspells.1 (List.mem_of_mem_head? hhead)
    obtain ⟨hb, hk, htail⟩ := ClassName.lead_unique h hparts hjoint hjoint' hhyphen hwritten
    obtain rfl := sound_builtin.family_unique h.key (hk ▸ hparts.key)
    rw [if_pos rfl]
    have himportant : other.important = name.important := by
      cases hi : name.important with
      | true => exact important_of_head?_splits h hjoint hname hi hhead
      | false =>
        refine Bool.eq_false_iff.2 fun hi' => ?_
        obtain ⟨hf, hstart⟩ :=
          ClassName.identifier_of_important h hjoint hjoint' hi hi' htail.symm
        exact hstart.elim (hvalue hf).1 (hvalue hf).2
    obtain ⟨hpseudo, hval, hunit⟩ :=
      ClassName.tail_unique hparts h hjoint' hjoint himportant htail
    exact congrArg some (ClassName.eq_of_parts (hother.trans htext.symm) hb hk himportant hpseudo
      hval hunit)

/-- **Canonical spellings are decoded uniquely.** With the built-in classes a name of any family,
written with a hyphen behind its breakpoint and none before a key that stands first, is read once,
in the family of its key, as the parts that it was written from. The value of a font family must
not look like the mark of importance. -/
theorem Compiler.tokenize_canonical (h : (builtin.pattern f).HasParts name)
    (hjoint : joint ∈ [['_', '_'], ['_']]) (htext : name.text = name.canonical joint)
    (hvalue : f = .fontFamily → ¬ ['i', '-'] <+: name.value ∧ ¬ ['i', '_'] <+: name.value) :
    (ofSettings {}).tokenize [name.canonical joint] = [(name, f)] := by
  refine Matcher.tokenize_eq_singleton fun g => ?_
  rw [Matcher.filter_tokenize (Matcher.isAssembled_ofSettings {}) isUnbroken_builtin
    (by simpa using h.isUnbroken_canonical hjoint)]
  have hhead := Pattern.head?_splits_canonical (g := g) h hjoint htext hvalue
  have hpattern : (ofSettings {}).classes.pattern g = builtin.pattern g := rfl
  rw [hpattern, List.filterMap_cons, hhead]
  by_cases hg : g = f
  · rw [if_pos hg, if_pos hg, hg]
    rfl
  · rw [if_neg hg, if_neg hg]
    rfl

/-- The mark of importance is read before a value that starts with its letter. -/
theorem Compiler.tokenize_canonical_icons :
    (builtin.pattern .fontFamily).HasParts
      ⟨"md-ff-i_hvr-icons", some "md", "ff", true, some "hvr", "icons", none⟩ ∧
    (¬ ['i', '-'] <+: ("icons" : Text) ∧ ¬ ['i', '_'] <+: ("icons" : Text)) ∧
    (ofSettings {}).tokenize ["md-ff-i_hvr-icons"] =
      [(⟨"md-ff-i_hvr-icons", some "md", "ff", true, some "hvr", "icons", none⟩,
        .fontFamily)] := by
  have hparts : (builtin.pattern .fontFamily).HasParts
      ⟨"md-ff-i_hvr-icons", some "md", "ff", true, some "hvr", "icons", none⟩ := by
    have hword : ("icons" : Text).all (fun c => isWord c || c == '-') = true := by
      decide
    exact ⟨by decide, by decide, by decide,
      .identifier (by decide) (List.all_eq_true.1 hword), by decide⟩
  have hvalue : ¬ ['i', '-'] <+: ("icons" : Text) ∧ ¬ ['i', '_'] <+: ("icons" : Text) := by decide
  have htext : (["md-ff-i_hvr-icons"] : List Text) = [ClassName.canonical
      ⟨"md-ff-i_hvr-icons", some "md", "ff", true, some "hvr", "icons", none⟩ ['_']] := by
    decide
  refine ⟨hparts, hvalue, ?_⟩
  rw [htext]
  exact tokenize_canonical hparts (by decide) (by decide) fun _ => hvalue

end Canonical

end UtilitySheet
