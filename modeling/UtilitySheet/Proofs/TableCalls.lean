import UtilitySheet.Proofs.ClassTable

/-!
# Changing the class table in place

Whoever holds one table changes it in place: a change is checked, then its values are written one
after the other, and where a step is refused, whatever was written before it stays (`call`). All
checks stand before the first write; so in a sound table a call is a change as a whole (`call_eq`).
Whatever calls are made, the table stays sound, a call that is refused leaves it as it was, and any
other call revises one class (`sound_afterCalls`).
-/

namespace UtilitySheet

namespace ClassTable

/-! ## Steps in place -/

/-- A step in place. Where it is refused, the table stays as it is by then. -/
abbrev InPlace := ExceptT SettingError (StateM ClassTable)

/-- What a step answers, and the table it leaves. -/
def InPlace.start {α : Type} (x : InPlace α) (t : ClassTable) :
    Except SettingError α × ClassTable :=
  x.run.run t

/-- A value of a class that a change may set, in the classes where it is free. -/
structure Field (α : Type) where
  isFree : ClassDef → Bool
  set : α → ClassDef → ClassDef

namespace Field

variable {α : Type}

/-- The unit. -/
def unit : Field ValueUnit := ⟨ClassDef.configurable, fun unit d => { d with unit }⟩

/-- The priority. -/
def priority : Field Float := ⟨fun _ => true, fun priority d => { d with priority }⟩

/-- The precision. -/
def precision : Field Nat :=
  ⟨ClassDef.configurable, fun precision d => { d with precision := some precision }⟩

/-- The key. -/
def key : Field Text := ⟨fun _ => true, fun key d => { d with key }⟩

/-- Sets the value in the class at a place, if there is one and it is free there. Says whether it
was set. -/
def write (f : Field α) (i : Nat) (value : Option α) : InPlace Bool :=
  match value with
  | none => return false
  | some a => do
    if ((← get).classes[i]?).any f.isFree then
      modify fun t => ⟨t.classes.modify i (f.set a)⟩
      return true
    else return false

/-- The class with the value set, if there is one and it is free. -/
def assign (f : Field α) (value : Option α) (d : ClassDef) : ClassDef :=
  match value with
  | none => d
  | some a => if f.isFree d then f.set a d else d

end Field

/-- What a change needs to be written: the place of its class and the unit that it names. It is
refused if the class or the unit is unknown, or if the new key is that of another class. -/
def check (key : Text) (change : ClassChange) : InPlace (Nat × Option ValueUnit) := do
  let t ← get
  let some i := t.classes.findIdx? (·.key == key) | throw (.unknownClass key)
  let unit ← ofExcept (readUnit change)
  if let some target := change.rename then
    if t.collides key target then throw (.renameCollision key target)
  return (i, unit)

/-- Writes the values of a change to the class at a place. Says whether any was set. -/
def write (i : Nat) (unit : Option ValueUnit) (change : ClassChange) : InPlace Bool := do
  let unitSet ← Field.unit.write i unit
  let prioritySet ← Field.priority.write i change.priority
  let precisionSet ← Field.precision.write i change.precision
  let keySet ← Field.key.write i change.rename
  return unitSet || prioritySet || precisionSet || keySet

/-- What a change to the class `key` in place answers, and the table it leaves. -/
def call (t : ClassTable) (key : Text) (change : ClassChange) :
    Except SettingError Bool × ClassTable :=
  InPlace.start (do let (i, unit) ← check key change; write i unit change) t

/-- The table that calls leave, one after the other. -/
def afterCalls (t : ClassTable) (calls : List (Text × ClassChange)) : ClassTable :=
  calls.foldl (fun t c => (t.call c.1 c.2).2) t

namespace InPlace

variable {α β : Type} {x : InPlace α} {t t' : ClassTable}

theorem start_bind_of_ok {a : α} (h : x.start t = (.ok a, t')) (f : α → InPlace β) :
    start (x >>= f) t = (f a).start t' := by
  simp only [start] at h ⊢
  rw [ExceptT.run_bind, StateT.run_bind, h]
  rfl

theorem start_bind_of_error {e : SettingError} (h : x.start t = (.error e, t'))
    (f : α → InPlace β) : start (x >>= f) t = (.error e, t') := by
  simp only [start] at h ⊢
  rw [ExceptT.run_bind, StateT.run_bind, h]
  rfl

end InPlace

open InPlace

/-! ## Writing -/

theorem Field.start_write {α : Type} (f : Field α) {classes : List ClassDef} {i : Nat}
    (hi : i < classes.length) (value : Option α) (d : ClassDef) :
    (f.write i value).start ⟨classes.set i d⟩ =
      (.ok (value.isSome && f.isFree d), ⟨classes.set i (f.assign value d)⟩) := by
  cases value with
  | none => rfl
  | some a =>
    have hd : (classes.set i d)[i]? = some d := List.getElem?_set_self hi
    have hget : (f.write i (some a)).start ⟨classes.set i d⟩ =
        (if ((classes.set i d)[i]?).any f.isFree then do
            modify fun t => ⟨t.classes.modify i (f.set a)⟩
            return true
          else return false : InPlace Bool).start ⟨classes.set i d⟩ := rfl
    rw [hget, hd, Option.any_some, assign, Option.isSome_some, Bool.true_and]
    cases f.isFree d with
    | false => rfl
    | true =>
      have hset : (classes.set i d).modify i (f.set a) = classes.set i (f.set a d) := by
        rw [List.modify_eq_set_getElem?, hd, Option.map_eq_map, Option.map_some, Option.getD_some,
          List.set_set]
      rw [if_pos rfl, if_pos rfl, ← hset]
      rfl

theorem Field.configurable_unit (value : Option ValueUnit) (d : ClassDef) :
    (Field.unit.assign value d).configurable = d.configurable := by
  unfold assign
  split
  · rfl
  · split <;> rfl

theorem Field.configurable_priority (value : Option Float) (d : ClassDef) :
    (Field.priority.assign value d).configurable = d.configurable := by
  cases value <;> rfl

/-- A class is revised value by value. -/
theorem revised_eq_assign (d : ClassDef) (unit : Option ValueUnit) (change : ClassChange) :
    d.revised unit change = Field.key.assign change.rename (Field.precision.assign change.precision
      (Field.priority.assign change.priority (Field.unit.assign unit d))) := by
  obtain ⟨rename, name, priority, precision⟩ := change
  obtain ⟨key, properties, old, weight, configurable, places, family⟩ := d
  cases configurable <;> cases unit <;> cases priority <;> cases precision <;> cases rename <;> rfl

/-- The values of a change that are written one after the other revise the class. -/
theorem start_write {t : ClassTable} {i : Nat} {d : ClassDef} (hd : t.classes[i]? = some d)
    {unit : Option ValueUnit} {change : ClassChange} (hunit : readUnit change = .ok unit) :
    (write i unit change).start t =
      (.ok (d.isChangedBy change), ⟨t.classes.set i (d.revised unit change)⟩) := by
  obtain ⟨hi, rfl⟩ := List.getElem?_eq_some_iff.1 hd
  have hsame : t = ⟨t.classes.set i t.classes[i]⟩ := by rw [List.set_getElem_self]
  have hnames : unit.isSome = change.unit.isSome := by
    unfold readUnit at hunit
    grind
  conv_lhs => rw [hsame]
  rw [write, start_bind_of_ok (Field.start_write _ hi _ _),
    start_bind_of_ok (Field.start_write _ hi _ _), start_bind_of_ok (Field.start_write _ hi _ _),
    start_bind_of_ok (Field.start_write _ hi _ _), ← revised_eq_assign]
  have hflags : ∀ u p q r c : Bool,
      (u && c || p && true || q && c || r && true) = (r || p || c && (u || q)) := by decide
  have hfree : Field.precision.isFree (Field.priority.assign change.priority
      (Field.unit.assign unit t.classes[i])) = t.classes[i].configurable :=
    (Field.configurable_priority _ _).trans (Field.configurable_unit _ _)
  rw [hfree, ClassDef.isChangedBy, ← hnames]
  exact congrArg (Except.ok ·, _) (hflags _ _ _ _ _)

/-! ## Checking -/

/-- What checking a change answers. -/
def checked (t : ClassTable) (key : Text) (change : ClassChange) :
    Except SettingError (Nat × Option ValueUnit) :=
  match t.classes.findIdx? (·.key == key), readUnit change, change.rename with
  | none, _, _ => .error (.unknownClass key)
  | some _, .error e, _ => .error e
  | some i, .ok unit, none => .ok (i, unit)
  | some i, .ok unit, some target =>
    if t.collides key target then .error (.renameCollision key target) else .ok (i, unit)

theorem start_check (t : ClassTable) (key : Text) (change : ClassChange) :
    (check key change).start t = (t.checked key change, t) := by
  have hget : (check key change).start t =
      (do
        let some i := t.classes.findIdx? (·.key == key) | throw (.unknownClass key)
        let unit ← ofExcept (readUnit change)
        if let some target := change.rename then
          if t.collides key target then throw (.renameCollision key target)
        return (i, unit) : InPlace _).start t := rfl
  rw [hget, checked]
  cases t.classes.findIdx? (·.key == key) with
  | none => rfl
  | some i =>
    cases readUnit change with
    | error e => rfl
    | ok unit =>
      cases change.rename with
      | none => rfl
      | some target =>
        dsimp only
        split <;> rfl

/-! ## A call as a whole -/

/-- In a sound table the class with a key stands in one place, and revising all classes with the key
is revising that one. -/
theorem Sound.map_eq_set {t : ClassTable} (ht : t.Sound) {i : Nat} {d : ClassDef}
    (hd : t.classes[i]? = some d) (f : ClassDef → ClassDef) :
    (t.classes.map fun e => if e.key == d.key then f e else e) = t.classes.set i (f d) := by
  obtain ⟨hi, rfl⟩ := List.getElem?_eq_some_iff.1 hd
  refine List.ext_getElem (by simp) fun j hj _ => ?_
  rw [List.length_map] at hj
  rw [List.getElem_map, List.getElem_set]
  by_cases hij : i = j
  · subst hij
    simp
  · have hkey : t.classes[j].key ≠ t.classes[i].key := by
      intro heq
      have hsame := List.inj_on_of_nodup_map ht.nodup (List.getElem_mem hj) (List.getElem_mem hi) heq
      exact hij (((ht.nodup.of_map _).getElem_inj_iff).1 hsame).symm
    simp [hij, hkey]

/-- What a call does: it is refused as the change is, and the table stays as it was; or it revises
the class with the key as the change does, and nothing else. -/
inductive Does (t : ClassTable) (key : Text) (change : ClassChange) :
    Except SettingError Bool × ClassTable → Prop
  | refuse {e : SettingError} : t.apply key change = .error e → Does t key change (.error e, t)
  | revise {i : Nat} {d : ClassDef} {unit : Option ValueUnit} :
      t.classes[i]? = some d → d.key = key → readUnit change = .ok unit →
      t.apply key change =
        .ok (⟨t.classes.set i (d.revised unit change)⟩, d.isChangedBy change) →
      Does t key change
        (.ok (d.isChangedBy change), ⟨t.classes.set i (d.revised unit change)⟩)

/-- What is refused by the check is refused as a change. -/
theorem apply_of_checked_error {t : ClassTable} {key : Text} {change : ClassChange}
    {e : SettingError} (h : t.checked key change = .error e) : t.apply key change = .error e := by
  have hfind : t.find? key = (t.classes.findIdx? (·.key == key)).bind (t.classes[·]?) :=
    List.find?_eq_bind_findIdx?_getElem?
  unfold checked at h
  split at h
  · rename_i hplace
    obtain rfl := Except.error.inj h
    rw [hplace, Option.bind_none] at hfind
    rw [ClassTable.apply, hfind]
    rfl
  · rename_i i e' hplace hunit
    obtain rfl := Except.error.inj h
    obtain ⟨hi, -⟩ := List.findIdx?_eq_some_iff_getElem.1 hplace
    rw [hplace, Option.bind_some, List.getElem?_eq_getElem hi] at hfind
    rw [ClassTable.apply, hfind, hunit]
    rfl
  · cases h
  · rename_i i unit target hplace hunit hrename
    split at h
    · rename_i hcollides
      obtain rfl := Except.error.inj h
      obtain ⟨hi, -⟩ := List.findIdx?_eq_some_iff_getElem.1 hplace
      rw [hplace, Option.bind_some, List.getElem?_eq_getElem hi] at hfind
      rw [ClassTable.apply, hfind, hunit, hrename]
      simp [bind, Except.bind, hcollides, throw, throwThe, MonadExceptOf.throw]
    · cases h

/-- What passes the check: a class with the key, a unit that can be read, and no new key that is
that of another class. -/
theorem of_checked_ok {t : ClassTable} {key : Text} {change : ClassChange} {i : Nat}
    {unit : Option ValueUnit} (h : t.checked key change = .ok (i, unit)) :
    (∃ d, t.classes[i]? = some d ∧ d.key = key) ∧ readUnit change = .ok unit ∧
      ∀ target, change.rename = some target → t.collides key target = false := by
  have hplaced : ∀ {j : Nat}, t.classes.findIdx? (·.key == key) = some j →
      ∃ d, t.classes[j]? = some d ∧ d.key = key := by
    intro j hj
    obtain ⟨hlt, hkey, -⟩ := List.findIdx?_eq_some_iff_getElem.1 hj
    exact ⟨_, List.getElem?_eq_getElem hlt, beq_iff_eq.1 hkey⟩
  unfold checked at h
  split at h
  · cases h
  · cases h
  · rename_i hplace hunit hrename
    obtain ⟨rfl, rfl⟩ := Prod.mk.inj (Except.ok.inj h)
    exact ⟨hplaced hplace, hunit, by simp [hrename]⟩
  · rename_i hplace hunit hrename
    split at h
    · cases h
    · rename_i hcollides
      obtain ⟨rfl, rfl⟩ := Prod.mk.inj (Except.ok.inj h)
      refine ⟨hplaced hplace, hunit, ?_⟩
      rintro target htarget
      obtain rfl := Option.some.inj (hrename.symm.trans htarget)
      simpa using hcollides

/-- **In a sound table a call is a change as a whole.** -/
theorem Sound.does_call {t : ClassTable} (ht : t.Sound) (key : Text) (change : ClassChange) :
    t.Does key change (t.call key change) := by
  have hcheck := start_check t key change
  cases hchecked : t.checked key change with
  | error e =>
    rw [hchecked] at hcheck
    rw [call, start_bind_of_error hcheck]
    exact .refuse (apply_of_checked_error hchecked)
  | ok found =>
    obtain ⟨i, unit⟩ := found
    obtain ⟨⟨d, hd, rfl⟩, hunit, hfree⟩ := of_checked_ok hchecked
    rw [hchecked] at hcheck
    rw [call, start_bind_of_ok hcheck, start_write hd hunit]
    refine .revise hd rfl hunit (apply_eq_ok.2 ⟨d, unit, ?_, hunit, hfree, ?_, rfl⟩)
    · exact ht.find?_key (List.mem_of_getElem? hd)
    · rw [ht.map_eq_set hd]

/-- A call leaves a sound table. -/
theorem Sound.call {t : ClassTable} (ht : t.Sound) (key : Text) (change : ClassChange) :
    (t.call key change).2.Sound := by
  have hdoes := ht.does_call key change
  generalize t.call key change = r at hdoes
  cases hdoes with
  | refuse _ => exact ht
  | revise _ _ _ happly => exact ht.apply happly

/-- **Whatever calls are made, from the built-in table on, the table is sound: keys are distinct,
and every place keeps what is fixed there. Any call that is refused then leaves the table as it is,
and any other one revises the class with its key alone.** -/
theorem sound_afterCalls (calls : List (Text × ClassChange)) :
    (builtin.afterCalls calls).Sound ∧ ∀ (key : Text) (change : ClassChange),
      (builtin.afterCalls calls).Does key change ((builtin.afterCalls calls).call key change) := by
  have hsound : (builtin.afterCalls calls).Sound :=
    List.foldlRecOn (motive := Sound) calls _ sound_builtin
      fun _ ht c _ => Sound.call ht c.1 c.2
  exact ⟨hsound, hsound.does_call⟩

end ClassTable

/-- A setting is taken as a call is. -/
theorem CompilerDraft.classes_tryClass {d : CompilerDraft} (hd : d.classes.Sound)
    (setting : Text × ClassChange) :
    (d.tryClass setting).classes = (d.classes.call setting.1 setting.2).2 := by
  have hdoes := hd.does_call setting.1 setting.2
  generalize d.classes.call setting.1 setting.2 = r at hdoes
  unfold tryClass changeClass
  cases hdoes with
  | refuse happly => rw [happly]; rfl
  | revise _ _ _ happly => rw [happly]; rfl

/-- The classes of a compiler are what a call for each setting leaves. -/
theorem Compiler.classes_ofSettings (s : Settings) :
    (ofSettings s).classes = ClassTable.builtin.afterCalls s.classes := by
  have hclasses : ∀ (settings : List (Text × ClassChange)) (d : CompilerDraft), d.classes.Sound →
      (settings.foldl CompilerDraft.tryClass d).classes = d.classes.afterCalls settings := by
    intro settings
    induction settings with
    | nil => exact fun _ _ => rfl
    | cons setting settings ih =>
      intro d hd
      have hfirst := CompilerDraft.classes_tryClass hd setting
      rw [List.foldl_cons, ih _ (hfirst ▸ hd.call _ _), hfirst]
      rfl
  have hprecisions : (draft s).classes = (classDraft s).classes :=
    List.foldlRecOn (motive := fun d : CompilerDraft => d.classes = (classDraft s).classes)
      s.precisions _ rfl fun d hd setting _ => (d.tryPrecision_classes setting).trans hd
  exact hprecisions.trans (hclasses s.classes {} ClassTable.sound_builtin)

end UtilitySheet
