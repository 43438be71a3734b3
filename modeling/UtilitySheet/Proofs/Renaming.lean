import UtilitySheet.Proofs.Emission
import UtilitySheet.Proofs.Reuse
import UtilitySheet.Proofs.Spelling

/-!
# Renamed classes

A class can take any key that no other class has. Its names do not all follow, though: what stands
before a key can make another key of it (`md` and `ai` read like `mdai`), and a key can go on behind
a shorter one with a hyphen. Where the new spelling of a name splits at the new key only, it gives
the rule that the old spelling gave, and where the old spelling does not split at the new key, it
gives no rule of the class any more (`Compiler.compile_renaming`). Both hold for every name if the
new key meets no other (`ClassTable.isClear`).
-/

namespace UtilitySheet

open Text

/-! ## Places of keys -/

/-- Whether a text is a name of the table with `key` behind the breakpoint and hyphen `lead`. -/
def ClassTable.SplitsAt (t : ClassTable) (text : Text) (lead : Option Text × Text) (key : Text) :
    Prop :=
  lead.2 ∈ [[], ['-']] ∧ ∃ f name, (t.pattern f).HasParts name ∧ name.breakpoint = lead.1 ∧
    name.key = key ∧ ∃ joint ∈ [['_', '_'], ['_']], text = name.written lead.2 joint

/-- Whether a text is no name of the table with another key, or with this key elsewhere. -/
def ClassTable.SplitsOnlyAt (t : ClassTable) (text : Text) (lead : Option Text × Text)
    (key : Text) : Prop :=
  ∀ lead' key', t.SplitsAt text lead' key' → lead' = lead ∧ key' = key

namespace ClassName

/-- The parts of the name with another key. -/
def rekey (name : ClassName) (key : Text) : ClassName := { name with key }

variable {name : ClassName} {hyphen hyphen' joint joint' : Text}

/-- The hyphen before the key is known from the other parts: the joint has none. -/
theorem hyphen_unique (hhyphen : hyphen ∈ [[], ['-']]) (hhyphen' : hyphen' ∈ [[], ['-']])
    (hjoint : joint ∈ [['_', '_'], ['_']]) (hjoint' : joint' ∈ [['_', '_'], ['_']])
    (h : name.written hyphen joint = name.written hyphen' joint') : hyphen = hyphen' := by
  have hnone : ∀ joint ∈ [['_', '_'], ['_']], joint.count '-' = 0 := by decide
  have hone : ∀ hyphen ∈ [[], ['-']], ∀ hyphen' ∈ [[], ['-']],
      hyphen.count '-' = hyphen'.count '-' → hyphen = hyphen' := by decide
  have htail : (name.tail joint).count '-' = (name.tail joint').count '-' := by
    unfold tail
    cases name.pseudo with
    | none => rfl
    | some k => simp [hnone joint hjoint, hnone joint' hjoint']
  have hcount := congrArg (List.count '-') h
  simp only [written, List.count_append, htail] at hcount
  refine hone hyphen hhyphen hyphen' hhyphen' ?_
  omega

end ClassName

namespace Pattern

variable {p q : Pattern} {t : Text} {name : ClassName} {hyphen joint key : Text}

theorem HasParts.of_bare (h : p.bare.HasParts name) : p.HasParts name :=
  ⟨h.breakpoint, (List.mem_filter.1 h.key).1, h.pseudo, h.value, h.unit⟩

theorem mem_front {breakpoint : Option Text} {rest : Text}
    (hbreakpoint : ∀ b ∈ breakpoint, b ∈ Breakpoint.all.map Breakpoint.key)
    (hhyphen : hyphen ∈ [[], ['-']]) (hkey : key ∈ p.keys) :
    ((breakpoint, key), rest) ∈ p.front (breakpoint.getD [] ++ (hyphen ++ (key ++ rest))) := by
  refine List.mem_flatMap.2 ⟨(breakpoint, key ++ rest), ?_, ?_⟩
  · exact mem_lead.2 ⟨hbreakpoint, hyphen, hhyphen, rfl⟩
  · exact List.mem_map.2 ⟨(key, rest), Reader.mem_oneOf.2 ⟨hkey, rfl⟩, rfl⟩

/-- Behind a key the same is read, whichever key it is. -/
theorem wholes_rekey (hfamily : q.family = p.family) (breakpoint : Option Text)
    (key key' rest : Text) :
    q.wholes ((breakpoint, key'), rest) =
      (p.wholes ((breakpoint, key), rest)).map fun x => (x.1.rekey key', x.2) := by
  have hback : ∀ important s, q.back breakpoint key' important s =
      (p.back breakpoint key important s).map fun x => (x.1.rekey key', x.2) := by
    intro important s
    simp only [back, Reader.bind, List.map_flatMap, List.map_map, hfamily]
    rfl
  simp only [wholes, Reader.bind, hback, ← List.map_flatMap, List.filter_map]
  rfl

/-- The preferred split of a name is the first one behind its key. -/
theorem head?_wholes_of_head?_splits (hhyphen : hyphen ∈ [[], ['-']])
    (hjoint : joint ∈ [['_', '_'], ['_']])
    (h : (p.splits (name.written hyphen joint)).head? = some name) :
    ((p.wholes ((name.breakpoint, name.key), name.tail joint)).head?.map fun x =>
      { x.1 with text := name.written hyphen joint }) = some name := by
  rw [splits_eq_wholes, List.head?_map] at h
  obtain ⟨x, hx, hname⟩ := Option.map_eq_some_iff.1 h
  rw [List.head?_flatMap] at hx
  obtain ⟨⟨⟨b, k⟩, rest⟩, hy, hx⟩ := List.exists_of_findSome?_eq_some hx
  obtain ⟨hb, hk, -, -, -, joint', hjoint', hrest⟩ := of_mem_wholes (List.mem_of_mem_head? hx)
  obtain ⟨-, -, hyphen', hhyphen', htext⟩ := of_mem_front hy
  obtain ⟨rfl, rfl, htail⟩ : name.breakpoint = b ∧ name.key = k ∧
      x.1.tail joint' = name.tail joint' := by
    subst hb hk
    exact hname ▸ ⟨rfl, rfl, rfl⟩
  simp only at hrest
  rw [htail] at hrest
  subst hrest
  obtain rfl := ClassName.hyphen_unique hhyphen hhyphen' hjoint hjoint' htext
  have hsame : name.tail joint = name.tail joint' :=
    List.append_cancel_left (List.append_cancel_left (List.append_cancel_left htext))
  rw [hsame, hx]
  exact congrArg some hname

/-- A name that splits at its key only is split with another key as it was with the one before. -/
theorem head?_splits_rekey (hfamily : q.family = p.family) (hkey : key ∈ q.keys)
    (hhyphen : hyphen ∈ [[], ['-']]) (hjoint : joint ∈ [['_', '_'], ['_']])
    (hbreakpoint : ∀ b ∈ name.breakpoint, b ∈ Breakpoint.all.map Breakpoint.key)
    (h : (p.splits (name.written hyphen joint)).head? = some name)
    (honly : ∀ y ∈ q.front ((name.rekey key).written hyphen joint), q.wholes y ≠ [] →
      y = ((name.breakpoint, key), name.tail joint)) :
    (q.splits ((name.rekey key).written hyphen joint)).head? =
      some { name.rekey key with text := (name.rekey key).written hyphen joint } := by
  obtain ⟨x, hx, hname⟩ :=
    Option.map_eq_some_iff.1 (head?_wholes_of_head?_splits hhyphen hjoint h)
  have hplace : ((name.breakpoint, key), name.tail joint) ∈
      q.front ((name.rekey key).written hyphen joint) := mem_front hbreakpoint hhyphen hkey
  rw [splits_eq_wholes, List.head?_map, head?_flatMap_eq hplace honly,
    wholes_rekey hfamily name.breakpoint name.key key, List.head?_map, hx, ← hname]
  rfl

end Pattern

/-! ## Places in a table -/

namespace ClassTable

variable {t : ClassTable} {text : Text} {f : Family} {name : ClassName}

theorem splitsAt_of_mem_splits (htext : isUnbroken text = true)
    (h : name ∈ (t.pattern f).bare.splits text) :
    ∃ hyphen, t.SplitsAt text (name.breakpoint, hyphen) name.key := by
  obtain ⟨hparts, -, hyphen, hhyphen, joint, hjoint, hwritten⟩ :=
    (Pattern.mem_splits (Pattern.isUnbroken_bare _) htext).1 h
  exact ⟨hyphen, hhyphen, f, name, hparts.of_bare, rfl, rfl, joint, hjoint, hwritten⟩

/-- A split starts at a place of its key. -/
theorem splitsAt_of_mem_front {y : (Option Text × Text) × Text}
    (hy : y ∈ (t.pattern f).bare.front text) (hne : (t.pattern f).bare.wholes y ≠ []) :
    ∃ hyphen, text = y.1.1.getD [] ++ (hyphen ++ (y.1.2 ++ y.2)) ∧
      t.SplitsAt text (y.1.1, hyphen) y.1.2 := by
  obtain ⟨⟨other, rest⟩, hother⟩ := List.exists_mem_of_ne_nil _ hne
  obtain ⟨hbreakpoint, hkey, hyphen, hhyphen, htext⟩ := Pattern.of_mem_front hy
  obtain ⟨hb, hk, hpseudo, hvalue, hunit, joint, hjoint, htail⟩ := Pattern.of_mem_wholes hother
  have hparts : (t.pattern f).bare.HasParts other :=
    ⟨hb ▸ hbreakpoint, hk ▸ hkey, hpseudo, hvalue, hunit⟩
  refine ⟨hyphen, htext, hhyphen, f, other, hparts.of_bare, hb, hk, joint, hjoint, ?_⟩
  rw [htext, ClassName.written, hb, hk, htail]

/-- The only place of a key in a text is the only one at which it is split. -/
theorem front_eq_of_splitsAt {lead : Option Text × Text} {key rest : Text}
    (htext : text = lead.1.getD [] ++ (lead.2 ++ (key ++ rest)))
    (honly : t.SplitsOnlyAt text lead key) :
    ∀ y ∈ (t.pattern f).bare.front text, (t.pattern f).bare.wholes y ≠ [] →
      y = ((lead.1, key), rest) := by
  rintro ⟨⟨b, k⟩, r⟩ hy hne
  obtain ⟨hyphen, hsplit, hplace⟩ := splitsAt_of_mem_front hy hne
  obtain ⟨rfl, rfl⟩ := honly _ _ hplace
  rw [htext] at hsplit
  have hrest : rest = r :=
    List.append_cancel_left (List.append_cancel_left (List.append_cancel_left hsplit))
  rw [hrest]

end ClassTable

namespace Matcher

variable {m m' : Matcher} {name : ClassName} {f : Family} {hyphen joint key : Text}

/-- A name that splits at its key only is read once with another key, as what it was read before. -/
theorem tokenize_rekey (hm : m.IsAssembled) (hm' : m'.IsAssembled) (hsound : m'.classes.Sound)
    (hhyphen : hyphen ∈ [[], ['-']]) (hjoint : joint ∈ [['_', '_'], ['_']])
    (hkey : key ∈ (m'.classes.pattern f).keys) (hunbroken : isUnbroken key = true)
    (htext : isUnbroken (name.written hyphen joint) = true)
    (hread : (name, f) ∈ m.tokenize [name.written hyphen joint])
    (honly : m'.classes.SplitsOnlyAt ((name.rekey key).written hyphen joint)
      (name.breakpoint, hyphen) key) :
    m'.tokenize [(name.rekey key).written hyphen joint] =
      [({ name.rekey key with text := (name.rekey key).written hyphen joint }, f)] := by
  have hsplit := (mem_tokenize_single hm htext).1 hread
  obtain ⟨hparts, -⟩ := (Pattern.mem_splits (Pattern.isUnbroken_bare _) htext).1
    (List.mem_of_mem_head? hsplit)
  have hbare : key ∈ (m'.classes.pattern f).bare.keys := List.mem_filter.2 ⟨hkey, hunbroken⟩
  have htext' : isUnbroken ((name.rekey key).written hyphen joint) = true := by
    simp only [ClassName.written, isUnbroken_append] at htext ⊢
    exact ⟨htext.1, htext.2.1, hunbroken, htext.2.2.2⟩
  have hplaces : ∀ g, ∀ y ∈ (m'.classes.pattern g).bare.front
      ((name.rekey key).written hyphen joint), (m'.classes.pattern g).bare.wholes y ≠ [] →
        y = ((name.breakpoint, key), name.tail joint) :=
    fun g => @ClassTable.front_eq_of_splitsAt _ _ g (name.breakpoint, hyphen) key _ rfl honly
  refine tokenize_eq_singleton fun g => ?_
  rw [filter_tokenize_eq_scan hm', Pattern.scan_single _ htext']
  by_cases hg : g = f
  · subst hg
    have hhead := Pattern.head?_splits_rekey (p := (m.classes.pattern g).bare)
      (q := (m'.classes.pattern g).bare) rfl hbare hhyphen hjoint hparts.breakpoint hsplit
      (hplaces g)
    rw [hhead, if_pos rfl]
    rfl
  · have hnone :
        (m'.classes.pattern g).bare.splits ((name.rekey key).written hyphen joint) = [] := by
      refine List.eq_nil_iff_forall_not_mem.2 fun other hother => hg ?_
      obtain ⟨hyphen', hplace⟩ := ClassTable.splitsAt_of_mem_splits htext' hother
      have hkeys := ((Pattern.mem_splits (Pattern.isUnbroken_bare _) htext').1 hother).key
      rw [(honly _ _ hplace).2] at hkeys
      exact hsound.family_unique (List.mem_filter.1 hkeys).1 hkey
    rw [hnone, if_neg hg]
    rfl

end Matcher

/-! ## Rules of a renamed class -/

namespace Matcher

variable {m m' : Matcher} {d : ClassDef} {name : ClassName} {f : Family} {key text value : Text}

theorem effectiveUnit_rekey {default unit : NumericUnit} :
    effectiveUnit { d with key } default { name.rekey key with text } = .emitted unit ↔
      effectiveUnit d default name = .emitted unit := by
  simp only [effectiveUnit, ClassName.rekey]
  cases name.unit with
  | none => rfl
  | some u =>
    simp only
    cases NumericUnit.named? u with
    | none => simp
    | some unit => cases hsuffix : unit.isSuffix <;> cases d.configurable <;> simp [hsuffix]

/-- A class gives its values whatever its key is. -/
theorem value_rekey (hprecisions : m'.precisions = m.precisions)
    (h : m.value d name f = .emitted value) :
    m'.value { d with key } { name.rekey key with text } f = .emitted value := by
  unfold Matcher.value at h ⊢
  cases hunit : d.unit with
  | color =>
    simp only [hunit] at h ⊢
    exact h
  | keyword =>
    simp only [hunit] at h ⊢
    exact h
  | numeric default =>
    simp only [hunit] at h ⊢
    obtain ⟨unit, heffective, hvalue⟩ := Resolution.bind_eq_emitted.1 h
    exact Resolution.bind_eq_emitted.2
      ⟨unit, effectiveUnit_rekey.2 heffective, hprecisions ▸ hvalue⟩

/-- A class gives the same rule under another key, but for the selector. -/
theorem resolve_rekey (hprecisions : m'.precisions = m.precisions)
    (hd : m.classes.find? name.key = some d)
    (hd' : m'.classes.find? key = some { d with key }) {r : Rule}
    (hr : m.resolve name f = .emitted r) :
    ∃ added, r.selector = name.text ++ added ∧
      m'.resolve { name.rekey key with text } f =
        .emitted { r with selector := text ++ added } := by
  obtain ⟨d₀, value, hd₀, hvalue, rfl⟩ := resolve_eq_emitted.1 hr
  obtain rfl := Option.some.inj (hd.symm.trans hd₀)
  exact ⟨_, rfl, resolve_eq_emitted.2 ⟨_, value, hd', value_rekey hprecisions hvalue, rfl⟩⟩

theorem compile_eq_singleton {names : List Text} {r : Rule}
    (h : m.tokenize names = [(name, f)]) (hr : m.resolve name f = .emitted r) :
    m.compile names = .ok ⟨[r]⟩ := by
  have hresolutions : m.resolutions names = [.emitted r] := by
    rw [resolutions, h]
    exact congrArg ([·]) hr
  rw [compile, hresolutions]
  simp [Resolution.collect, Except.map, RuleGroups.ofRules]

end Matcher

/-- Whether the name alone, spelled with `hyphen` and `joint`, is read in the family and gives the
rule. -/
structure Matcher.Emits (m : Matcher) (name : ClassName) (f : Family) (hyphen joint : Text)
    (r : Rule) : Prop where
  hyphenated : hyphen ∈ [[], ['-']]
  joined : joint ∈ [['_', '_'], ['_']]
  unbroken : isUnbroken (name.written hyphen joint) = true
  read : (name, f) ∈ m.tokenize [name.written hyphen joint]
  rule : m.resolve name f = .emitted r

/-! ## Accepted renames -/

/-- The settings with a rename of one class behind the others. -/
def Settings.renaming (s : Settings) (key target : Text) : Settings :=
  { s with classes := s.classes ++ [(key, { rename := some target })] }

namespace ClassTable

variable {t t' : ClassTable} {key target : Text} {b : Bool}

/-- A rename that is accepted gives the class its new key and changes no other. -/
theorem of_apply_rename (h : t.apply key { rename := some target } = .ok (t', b)) :
    ∃ d, t.find? key = some d ∧
      t' = ⟨t.classes.map fun e => if e.key == key then { e with key := target } else e⟩ := by
  obtain ⟨d, unit, hd, hunit, -, rfl, -⟩ := apply_eq_ok.1 h
  obtain rfl := Except.ok.inj hunit
  refine ⟨d, hd, ?_⟩
  congr 1
  refine List.map_congr_left fun e _ => ?_
  split <;> simp [ClassDef.revised]

theorem find?_of_apply_rename (ht : t.Sound)
    (h : t.apply key { rename := some target } = .ok (t', b)) :
    ∃ d, t.find? key = some d ∧ t'.find? target = some { d with key := target } := by
  have ht' := ht.apply h
  obtain ⟨d, hd, rfl⟩ := of_apply_rename h
  refine ⟨d, hd, ?_⟩
  obtain ⟨hmem, hkey⟩ := find?_eq_some hd
  refine ht'.find?_key (d := { d with key := target }) (List.mem_map.2 ⟨d, hmem, ?_⟩)
  rw [if_pos (beq_iff_eq.2 hkey)]

/-- The new key belongs to the family of the old one. -/
theorem mem_keys_of_apply_rename (h : t.apply key { rename := some target } = .ok (t', b))
    {f : Family} (hkey : key ∈ (t.pattern f).keys) : target ∈ (t'.pattern f).keys := by
  obtain ⟨-, -, rfl⟩ := of_apply_rename h
  obtain ⟨d, hd, rfl⟩ := List.mem_map.1 hkey
  obtain ⟨hmem, hfamily⟩ := List.mem_filter.1 hd
  refine List.mem_map.2 ⟨{ d with key := target }, List.mem_filter.2 ⟨?_, hfamily⟩, rfl⟩
  exact List.mem_map.2 ⟨d, hmem, if_pos (beq_self_eq_true d.key)⟩

/-- A key after a rename is the new one or was a key of the family before. -/
theorem exists_class_before (h : t.apply key { rename := some target } = .ok (t', b))
    {f : Family} {k : Text} (hk : k ∈ (t'.pattern f).keys) :
    k = target ∨ ∃ d ∈ t.classes, d.key = k ∧ d.family = f := by
  obtain ⟨-, -, rfl⟩ := of_apply_rename h
  obtain ⟨d, hd, rfl⟩ := List.mem_map.1 hk
  obtain ⟨hmem, hfamily⟩ := List.mem_filter.1 hd
  obtain ⟨e, he, rfl⟩ := List.mem_map.1 hmem
  by_cases hrenamed : (e.key == key) = true
  · rw [if_pos hrenamed]
    exact .inl rfl
  · rw [if_neg hrenamed] at hfamily ⊢
    exact .inr ⟨e, he, rfl, beq_iff_eq.1 hfamily⟩

end ClassTable

/-! ## Keys that meet no other -/

/-- Whether a value may be `rest` and go on like what stands behind a key. -/
def ValueLanguage.goesOn : ValueLanguage → Text → Bool
  | identifier, _ => true
  | l, rest => l.words.any fun word =>
    (rest ++ ['-']).isPrefixOf word || (rest ++ ['_']).isPrefixOf word

/-- Whether what stands behind a key of the family may be `s` and go on like what stands behind a
key: `s` ends in the hyphen before the value or behind the mark of importance, it has a low line or
stops within a value. -/
def Family.goesOn (f : Family) : Text → Bool
  | ['-'] | ['-', 'i'] | '-' :: 'i' :: '-' :: _ | '-' :: 'i' :: '_' :: _ | '_' :: _ => true
  | '-' :: rest => f.language.goesOn rest
  | _ => false

namespace ClassName

/-- What may stand before a key: a breakpoint and a hyphen, each or none. -/
def leads : List (Option Text × Text) :=
  (none :: Breakpoint.all.map fun b => some b.key).flatMap fun b => [(b, []), (b, ['-'])]

/-- A key and what stands before it. -/
def front (lead : Option Text × Text) (key : Text) : Text := lead.1.getD [] ++ (lead.2 ++ key)

/-- Whether one text may have the front `a` in the family `f` and the front `b` in the family `g`. -/
def meets (f : Family) (a : Text) (g : Family) (b : Text) : Bool :=
  a == b || (after? a b).any f.goesOn || (after? b a).any g.goesOn

end ClassName

/-- Whether no name can have the new key `key`, of the family `f`, where it has a key of the table,
nor at two places. -/
def ClassTable.isClear (t : ClassTable) (f : Family) (key : Text) : Bool :=
  ClassName.leads.all fun lead => ClassName.leads.all fun lead' =>
    (t.classes.all fun d =>
      !ClassName.meets f (ClassName.front lead key) d.family (ClassName.front lead' d.key)) &&
    (lead == lead' ||
      !ClassName.meets f (ClassName.front lead key) f (ClassName.front lead' key))

/-- No hyphen stands in a number or a colour, but in front. -/
theorem ValueLanguage.Accepts.hyphen_not_mem {l : ValueLanguage} {v : Text} (h : l.Accepts v)
    (hl : l.takesUnit = true ∨ l = .color) : '-' ∉ v.drop 1 := by
  have hdigit : isDigit '-' = false := by decide
  have hlower : Char.isLower '-' = false := by decide
  have hhex : isHexDigit '-' = false := by decide
  have hunsigned : ∀ {s : Text}, IsUnsigned s → '-' ∉ s := by
    intro s h hmem
    refine h.forall_mem (P := (· ≠ '-')) ?_ (by decide) '-' hmem rfl
    rintro c hc rfl
    rw [hc] at hdigit
    cases hdigit
  intro hmem
  cases h with
  | keyword _ => rcases hl with hl | hl <;> cases hl
  | identifier _ _ => rcases hl with hl | hl <;> cases hl
  | unsigned h => exact hunsigned h (List.mem_of_mem_drop hmem)
  | negative h => exact hunsigned h hmem
  | reserved h =>
    rw [(reserved_lower v h).2 _ (List.mem_of_mem_drop hmem)] at hlower
    cases hlower
  | hexadecimal h =>
    simp only [isHexColor, Bool.and_eq_true] at h
    rw [List.all_eq_true.1 h.2 _ (List.mem_of_mem_drop hmem)] at hhex
    cases hhex
  | colorName _ hall =>
    rw [hall _ (List.mem_of_mem_drop hmem)] at hlower
    cases hlower

/-- A value that goes on like what stands behind a key is a keyword or an identifier. -/
theorem ValueLanguage.goesOn_of_append {l : ValueLanguage} {v rest s : Text} {u : Option Text}
    (h : l.Accepts v)
    (hu : ∀ x ∈ u, l.takesUnit = true ∧ x ∈ NumericUnit.suffixes.map NumericUnit.key)
    (hrest : rest ≠ []) (hhead : ∃ c t, s = c :: t ∧ (c = '-' ∨ c = '_')) (hs : '-' ∈ s)
    (heq : v ++ u.getD [] = rest ++ s) : l.goesOn rest = true := by
  have hlate : '-' ∈ (v ++ u.getD []).drop 1 := by
    obtain ⟨a, rest, rfl⟩ := List.exists_cons_of_ne_nil hrest
    rw [heq]
    exact List.mem_append_right rest hs
  have hunit : '-' ∉ u.getD [] := by
    intro hmem
    cases u with
    | none => cases hmem
    | some x => exact absurd ((NumericUnit.key_lower x (hu x rfl).2).2 _ hmem) (by decide)
  have hvalue : '-' ∈ v.drop 1 := by
    rw [List.drop_append, List.mem_append] at hlate
    exact hlate.resolve_right fun hmem => hunit (List.mem_of_mem_drop hmem)
  cases l with
  | identifier => rfl
  | numeric signed => exact absurd hvalue (h.hyphen_not_mem (.inl rfl))
  | color => exact absurd hvalue (h.hyphen_not_mem (.inr rfl))
  | keywords ws =>
    have hnone : u = none := Option.eq_none_iff_forall_not_mem.2 fun x hx => by
      cases (hu x hx).1
    obtain ⟨c, t, rfl, hc⟩ := hhead
    rw [hnone, Option.getD_none, List.append_nil] at heq
    cases h with
    | @keyword _ w hw =>
      refine List.any_eq_true.2 ⟨w.literal, List.mem_map_of_mem hw, ?_⟩
      have hprefix : rest ++ [c] <+: w.literal := ⟨t, by simp [heq]⟩
      rw [Bool.or_eq_true, List.isPrefixOf_iff_prefix, List.isPrefixOf_iff_prefix]
      rcases hc with rfl | rfl
      · exact .inl hprefix
      · exact .inr hprefix

namespace ClassName

variable {name name' : ClassName} {hyphen hyphen' joint joint' : Text} {f g : Family}

theorem hyphen_mem_tail (name : ClassName) (joint : Text) : '-' ∈ name.tail joint := by
  simp [tail]

/-- What is cut off what stands behind a key where another key ends. -/
theorem goesOn_of_tail {p : Pattern} (h : p.HasParts name) (hjoint : joint ∈ [['_', '_'], ['_']])
    (hjoint' : joint' ∈ [['_', '_'], ['_']]) {s : Text} (hs : s ≠ [])
    (htail : name.tail joint = s ++ name'.tail joint') : p.family.goesOn s = true := by
  obtain ⟨a, s, rfl⟩ := List.exists_cons_of_ne_nil hs
  obtain ⟨j, rfl⟩ := joint_eq_cons hjoint
  have hbehind := name'.tail_eq_cons hjoint'
  have hhyphen := name'.hyphen_mem_tail joint'
  generalize name'.tail joint' = behind at htail hbehind hhyphen
  unfold tail at htail
  cases himportant : name.important with
  | true =>
    -- Behind the mark of importance stands a mark again.
    rw [himportant, if_pos rfl] at htail
    rcases s with _ | ⟨b, _ | ⟨c, s⟩⟩
    · obtain ⟨rfl, -⟩ := List.cons.inj htail
      rfl
    · obtain ⟨rfl, hrest⟩ := List.cons.inj htail
      obtain ⟨rfl, -⟩ := List.cons.inj hrest
      rfl
    · obtain ⟨rfl, hrest⟩ := List.cons.inj htail
      obtain ⟨rfl, hmark⟩ := List.cons.inj hrest
      cases hpseudo : name.pseudo with
      | none =>
        rw [hpseudo] at hmark
        obtain ⟨rfl, -⟩ := List.cons.inj hmark
        rfl
      | some k =>
        rw [hpseudo] at hmark
        obtain ⟨rfl, -⟩ := List.cons.inj hmark
        rfl
  | false =>
    rw [himportant, if_neg Bool.false_ne_true] at htail
    cases hpseudo : name.pseudo with
    | some k =>
      rw [hpseudo] at htail
      obtain ⟨rfl, -⟩ := List.cons.inj htail
      rfl
    | none =>
      rw [hpseudo] at htail
      obtain ⟨rfl, hrest⟩ := List.cons.inj htail
      by_cases hempty : s = []
      · rw [hempty]
        rfl
      · have hvalue := ValueLanguage.goesOn_of_append h.value h.unit hempty hbehind hhyphen hrest
        unfold Family.goesOn
        split
        · rfl
        · rfl
        · rfl
        · rfl
        · rfl
        · rename_i heq
          obtain ⟨-, rfl⟩ := List.cons.inj heq
          exact hvalue
        · rename_i hother
          exact absurd rfl (hother s)

theorem mem_leads (hbreakpoint : ∀ b ∈ name.breakpoint, b ∈ Breakpoint.all.map Breakpoint.key)
    (hhyphen : hyphen ∈ [[], ['-']]) : (name.breakpoint, hyphen) ∈ leads := by
  have hmem : ∀ hyphen ∈ [[], ['-']], (none, hyphen) ∈ leads ∧
      ∀ b ∈ Breakpoint.all.map Breakpoint.key, (some b, hyphen) ∈ leads := by
    decide
  cases hb : name.breakpoint with
  | none => exact (hmem hyphen hhyphen).1
  | some b => exact (hmem hyphen hhyphen).2 b (hbreakpoint b hb)

/-- The fronts of one text meet. -/
theorem meets_of_written_eq {p q : Pattern} (hparts : p.HasParts name) (hparts' : q.HasParts name')
    (hjoint : joint ∈ [['_', '_'], ['_']]) (hjoint' : joint' ∈ [['_', '_'], ['_']])
    (h : name.written hyphen joint = name'.written hyphen' joint') :
    meets p.family (front (name.breakpoint, hyphen) name.key) q.family
      (front (name'.breakpoint, hyphen') name'.key) = true := by
  have hfronts : front (name.breakpoint, hyphen) name.key ++ name.tail joint =
      front (name'.breakpoint, hyphen') name'.key ++ name'.tail joint' := by
    simpa [front, written] using h
  rw [meets, Bool.or_eq_true, Bool.or_eq_true, beq_iff_eq]
  rcases List.append_eq_append_iff.1 hfronts with ⟨s, hs, htail⟩ | ⟨s, hs, htail⟩
  · by_cases hempty : s = []
    · rw [hs, hempty, List.append_nil]
      exact .inl (.inl rfl)
    · refine .inl (.inr ?_)
      rw [after?_eq_some_iff.2 hs]
      exact goesOn_of_tail hparts hjoint hjoint' hempty htail
  · by_cases hempty : s = []
    · rw [hs, hempty, List.append_nil]
      exact .inl (.inl rfl)
    · refine .inr ?_
      rw [after?_eq_some_iff.2 hs]
      exact goesOn_of_tail hparts' hjoint' hjoint hempty htail

end ClassName

namespace ClassTable

variable {t t' : ClassTable} {key target : Text} {b : Bool} {f : Family} {name : ClassName}
  {hyphen joint : Text}

theorem of_isClear (hclear : t.isClear f key = true) {lead lead' : Option Text × Text}
    (hlead : lead ∈ ClassName.leads) (hlead' : lead' ∈ ClassName.leads) :
    (∀ d ∈ t.classes, ClassName.meets f (ClassName.front lead key) d.family
      (ClassName.front lead' d.key) ≠ true) ∧
    (ClassName.meets f (ClassName.front lead key) f (ClassName.front lead' key) = true →
      lead = lead') := by
  have hpair := List.all_eq_true.1 (List.all_eq_true.1 hclear lead hlead) lead' hlead'
  obtain ⟨hother, hself⟩ := Bool.and_eq_true_iff.1 hpair
  refine ⟨fun d hd => by simpa using List.all_eq_true.1 hother d hd, fun hmeets => ?_⟩
  simpa [hmeets] using hself

/-- With a clear key the names of the class split at it only, and the old ones do not split at
it. -/
theorem splitsAt_of_isClear (ht : t.Sound) (hclear : t.isClear f target = true)
    (h : t.apply key { rename := some target } = .ok (t', b))
    (hparts : (t.pattern f).HasParts name) (hkey : name.key = key)
    (hhyphen : hyphen ∈ [[], ['-']]) (hjoint : joint ∈ [['_', '_'], ['_']]) :
    t'.SplitsOnlyAt ((name.rekey target).written hyphen joint) (name.breakpoint, hyphen) target ∧
      ∀ lead, ¬ t'.SplitsAt (name.written hyphen joint) lead target := by
  have hlead := ClassName.mem_leads hparts.breakpoint hhyphen
  have htarget := mem_keys_of_apply_rename h (hkey ▸ hparts.key)
  have hrekeyed : (t'.pattern f).HasParts (name.rekey target) :=
    ⟨hparts.breakpoint, htarget, hparts.pseudo, hparts.value, hparts.unit⟩
  constructor
  · rintro ⟨b', hyphen'⟩ key' ⟨hhyphen', g, other, hother, rfl, rfl, joint', hjoint', htext⟩
    have hmeets := ClassName.meets_of_written_eq hrekeyed hother hjoint hjoint' htext
    obtain ⟨hapart, hself⟩ :=
      of_isClear hclear hlead (ClassName.mem_leads hother.breakpoint hhyphen')
    rcases exists_class_before h hother.key with hsame | ⟨d, hd, hdkey, hdfamily⟩
    · obtain rfl := (ht.apply h).family_unique (hsame ▸ hother.key) htarget
      rw [hsame] at hmeets
      exact ⟨(hself hmeets).symm, hsame⟩
    · refine absurd ?_ (hapart d hd)
      rw [hdkey, hdfamily]
      exact hmeets
  · rintro ⟨b', hyphen'⟩ ⟨hhyphen', g, other, hother, rfl, rfl, joint', hjoint', htext⟩
    have hmeets := ClassName.meets_of_written_eq hother hparts hjoint' hjoint htext.symm
    obtain rfl := (ht.apply h).family_unique hother.key htarget
    obtain ⟨d, hd, hdkey⟩ := List.mem_map.1 hparts.key
    obtain ⟨hmem, hdfamily⟩ := List.mem_filter.1 hd
    refine (of_isClear hclear (ClassName.mem_leads hother.breakpoint hhyphen') hlead).1 d hmem ?_
    rw [hdkey, beq_iff_eq.1 hdfamily]
    exact hmeets

end ClassTable

/-! ## Renamed compilers -/

namespace Compiler

variable {s : Settings} {key target : Text} {table : ClassTable} {b : Bool}

theorem classes_renaming
    (h : (ofSettings s).classes.apply key { rename := some target } = .ok (table, b)) :
    (ofSettings (s.renaming key target)).classes = table := by
  have hdraft : (classDraft s).classes.apply key { rename := some target } = .ok (table, b) := by
    rw [← h]
    exact congrArg (·.apply key { rename := some target })
      (CompilerDraft.foldl_tryPrecision_classes _ s.precisions).symm
  have hlast : ((classDraft s).tryClass (key, { rename := some target })).classes = table := by
    simp [CompilerDraft.tryClass, CompilerDraft.changeClass, hdraft, Except.map]
  refine (CompilerDraft.foldl_tryPrecision_classes _ s.precisions).trans ?_
  rw [← hlast, classDraft, classDraft, Settings.renaming, List.foldl_append]
  rfl

theorem precisions_renaming (s : Settings) (key target : Text) :
    (ofSettings (s.renaming key target)).precisions = (ofSettings s).precisions := by
  refine CompilerDraft.foldl_tryPrecision_precisions s.precisions ?_
  simp only [classDraft, CompilerDraft.foldl_tryClass_precisions]

/-- **What a rename does to the names of a class.** Let a name of the class have a rule. If its new
spelling splits at the new key only, then that alone gives the same rule, with another selector. If
its old spelling does not split at the new key, the class gives no rule for it any more. Both hold
for every name if the new key is clear. -/
theorem compile_renaming
    (happly : (ofSettings s).classes.apply key { rename := some target } = .ok (table, b))
    (htarget : isUnbroken target = true) {name : ClassName} {f : Family} {hyphen joint : Text}
    {r : Rule} (hkey : name.key = key) (h : (ofSettings s).Emits name f hyphen joint r) :
    (table.SplitsOnlyAt ((name.rekey target).written hyphen joint) (name.breakpoint, hyphen)
        target →
      ∃ added, r.selector = name.written hyphen joint ++ added ∧
        (ofSettings (s.renaming key target)).compile [(name.rekey target).written hyphen joint] =
          .ok ⟨[{ r with selector := (name.rekey target).written hyphen joint ++ added }]⟩) ∧
    ((∀ lead, ¬ table.SplitsAt (name.written hyphen joint) lead target) →
      ∀ reading ∈ (ofSettings (s.renaming key target)).tokenize [name.written hyphen joint],
        reading.1.key ≠ target) ∧
    ((ofSettings s).classes.isClear f target = true →
      table.SplitsOnlyAt ((name.rekey target).written hyphen joint) (name.breakpoint, hyphen)
        target ∧
      ∀ lead, ¬ table.SplitsAt (name.written hyphen joint) lead target) := by
  have hm := Matcher.isAssembled_ofSettings s
  have hm' := Matcher.isAssembled_ofSettings (s.renaming key target)
  have hclasses := classes_renaming happly
  have hsound := sound_classes s
  have hsplit := (Matcher.mem_tokenize_single hm h.unbroken).1 h.read
  obtain ⟨hparts, htext, -⟩ := (Pattern.mem_splits (Pattern.isUnbroken_bare _) h.unbroken).1
    (List.mem_of_mem_head? hsplit)
  refine ⟨fun honly => ?_, fun hnone reading hreading heq => ?_, fun hclear =>
    ClassTable.splitsAt_of_isClear hsound hclear happly hparts.of_bare hkey h.hyphenated h.joined⟩
  · obtain ⟨d, hd, hd'⟩ := ClassTable.find?_of_apply_rename hsound happly
    rw [← hclasses] at honly hd'
    have hmember : target ∈
        ((ofSettings (s.renaming key target)).classes.pattern f).keys := by
      rw [hclasses]
      exact ClassTable.mem_keys_of_apply_rename happly (hkey ▸ hparts.of_bare.key)
    obtain ⟨added, hselector, hresolve⟩ :=
      Matcher.resolve_rekey (precisions_renaming s key target) (hkey ▸ hd) hd' h.rule
    refine ⟨added, htext ▸ hselector, Matcher.compile_eq_singleton ?_ hresolve⟩
    exact Matcher.tokenize_rekey hm hm' (sound_classes _) h.hyphenated h.joined hmember htarget
      h.unbroken h.read honly
  · obtain ⟨other, g⟩ := reading
    have hother := List.mem_of_mem_head? ((Matcher.mem_tokenize_single hm' h.unbroken).1 hreading)
    obtain ⟨hyphen', hplace⟩ := ClassTable.splitsAt_of_mem_splits h.unbroken hother
    rw [hclasses] at hplace
    obtain rfl := heq
    exact hnone _ hplace

/-- A margin for small screens under the pointer. -/
def hoveredMargin : ClassName where
  text := "md-m-i_hvr-2"
  breakpoint := some "md"
  key := "m"
  important := true
  pseudo := some "hvr"
  value := "2"
  unit := none

/-- A clear key may have a hyphen. -/
theorem compile_renaming_hyphenated : ∃ table b r,
    (ofSettings {}).classes.apply "m" { rename := some "gap-m" } = .ok (table, b) ∧
    (ofSettings {}).classes.isClear .offset "gap-m" = true ∧
    (ofSettings {}).Emits hoveredMargin .offset ['-'] ['_'] r ∧
    (∃ added, r.selector = "md-m-i_hvr-2" ++ added ∧
      (ofSettings (Settings.renaming {} "m" "gap-m")).compile ["md-gap-m-i_hvr-2"] =
        .ok ⟨[{ r with selector := "md-gap-m-i_hvr-2" ++ added }]⟩) ∧
    ∀ reading ∈ (ofSettings (Settings.renaming {} "m" "gap-m")).tokenize ["md-m-i_hvr-2"],
      reading.1.key ≠ "gap-m" := by
  have hclear : (ofSettings {}).classes.isClear .offset "gap-m" = true := by decide +kernel
  have haccepted : ((ofSettings {}).classes.apply "m"
      { rename := some "gap-m" }).toOption.isSome = true := by
    decide
  have hemitted : ((ofSettings {}).resolve hoveredMargin .offset).emitted?.isSome = true := by
    decide +kernel
  have hread : (hoveredMargin, .offset) ∈
      (ofSettings {}).tokenize [hoveredMargin.written ['-'] ['_']] := by
    decide +kernel
  obtain ⟨r, hr⟩ := Option.isSome_iff_exists.1 hemitted
  have hemits : (ofSettings {}).Emits hoveredMargin .offset ['-'] ['_'] r :=
    ⟨by decide, by decide, by decide, hread, Resolution.emitted?_eq_some.1 hr⟩
  cases happly : (ofSettings {}).classes.apply "m" { rename := some "gap-m" } with
  | error e =>
    rw [happly] at haccepted
    cases haccepted
  | ok result =>
    obtain ⟨htransfer, hgone, hplaces⟩ := compile_renaming happly (by decide) rfl hemits
    obtain ⟨honly, hnone⟩ := hplaces hclear
    exact ⟨result.1, result.2, r, rfl, hclear, hemits, htransfer honly, hgone hnone⟩

/-- An alignment of one item. -/
def centered : ClassName where
  text := "as-center"
  breakpoint := none
  key := "as"
  important := false
  pseudo := none
  value := "center"
  unit := none

/-- A key that is put together from a breakpoint and another key is taken for these. -/
theorem compile_renaming_fails : ¬ ∀ (s : Settings) (key target : Text) (table : ClassTable)
    (b : Bool) (name : ClassName) (f : Family) (hyphen joint : Text) (r : Rule),
    target ≠ [] → (∀ c ∈ target, Markup.isClassChar c = true ∧ isBlank c = false) →
    (ofSettings s).classes.apply key { rename := some target } = .ok (table, b) →
    name.key = key → (ofSettings s).Emits name f hyphen joint r →
    (∃ added, r.selector = name.written hyphen joint ++ added ∧
      (ofSettings (s.renaming key target)).compile [(name.rekey target).written hyphen joint] =
        .ok ⟨[{ r with selector := (name.rekey target).written hyphen joint ++ added }]⟩) ∧
    ∀ reading ∈ (ofSettings (s.renaming key target)).tokenize [name.written hyphen joint],
      reading.1.key ≠ target := by
  intro hall
  have hclass : ("mdai" : Text).all Markup.isClassChar = true := by decide
  have hblank : isUnbroken "mdai" = true := by decide
  have hword : ∀ c ∈ ("mdai" : Text), Markup.isClassChar c = true ∧ isBlank c = false :=
    fun c hc => ⟨List.all_eq_true.1 hclass c hc, isUnbroken_iff.1 hblank c hc⟩
  have haccepted : ((ofSettings {}).classes.apply "as"
      { rename := some "mdai" }).toOption.isSome = true := by
    decide
  have hbefore : ((ofSettings {}).resolve centered .align).emitted?.map Rule.breakpoint =
      some none := by
    decide +kernel
  have hread : (centered, .align) ∈ (ofSettings {}).tokenize [centered.written [] ['_']] := by
    decide +kernel
  have hafter : ((ofSettings (Settings.renaming {} "as" "mdai")).compile
      [(centered.rekey "mdai").written [] ['_']]).toOption.map
        (fun g => g.rules.map Rule.breakpoint) = some [some .md] := by
    decide +kernel
  obtain ⟨r, hr, hstandard⟩ := Option.map_eq_some_iff.1 hbefore
  have hemits : (ofSettings {}).Emits centered .align [] ['_'] r :=
    ⟨by decide, by decide, by decide, hread, Resolution.emitted?_eq_some.1 hr⟩
  cases happly : (ofSettings {}).classes.apply "as" { rename := some "mdai" } with
  | error e =>
    rw [happly] at haccepted
    cases haccepted
  | ok result =>
    obtain ⟨⟨added, -, hcompile⟩, -⟩ := hall {} "as" "mdai" result.1 result.2 centered .align []
      ['_'] r (by decide) hword happly rfl hemits
    rw [hcompile] at hafter
    simp [Except.toOption, hstandard] at hafter

end Compiler

end UtilitySheet
