import UtilitySheet.Proofs.Places

/-!
# Strings of a stylesheet

Each node of a stylesheet is written in one place, alone or with the nodes of its identity. `Keeps`
says that what is written in a place has the strings of all nodes of the place: those of a head or a
statement, and those of each declared value that counts. That is so at every depth if the strings of
the stylesheet are calm (`keepsStrings_of_calm`): heads are broken at commas, bodies are cut at
semicolons without regard to quotes, blanks are collapsed everywhere and dropped from the identity
of a statement. It is not so for a string with a semicolon (`not_keepsStrings_of_isBalanced`),
although the reader of constructs passes over quotes.
-/

namespace UtilitySheet.Sheet

open Text

/-! ## Kept strings -/

/-- The nodes of a place that count: the last one where it replaces the others. -/
def counting (place : List Node) : List Node :=
  if place.all (Policy.replacesOf ·.head) then place.getLast?.toList else place

/-- What is written in places has the strings of the nodes: a statement has those of all statements
of its place, and a rule has those of all heads of its place; the properties that are declared in
the nodes that count stand there with the strings of their values, and the places of their children
are kept in the same way. -/
inductive Keeps (mode : Mode) : (depth : Nat) → List (List Node) → List Item → Prop
  | nil {depth : Nat} : Keeps mode depth [] []
  | statement {depth : Nat} {place : List Node} {rest : List (List Node)} {text : Text}
      {items : List Item} :
      (∀ n ∈ place, n.isBlock = false ∧ strings n.head = strings text) →
      Keeps mode depth rest items →
      Keeps mode depth (place :: rest) (.statement text :: items)
  | rule {depth : Nat} {place : List Node} {rest : List (List Node)} {head : Text}
      {bodies : List Text} {inner items : List Item} :
      (∀ n ∈ place, n.isBlock = true ∧ strings n.writtenHead = strings (brokenHead depth head)) →
      (Declarations.ofBodies bodies).map (fun d => (d.1, strings d.2)) =
        (Declarations.writtenIn ((counting place).flatMap Node.own)).map
          (fun d => (d.1, strings d.2)) →
      Keeps mode (depth + 1)
        (places mode (Node.sorted ((counting place).flatMap Node.children))) inner →
      Keeps mode depth rest items →
      Keeps mode depth (place :: rest) (.rule head bodies inner :: items)

/-- Whether a stylesheet is written with the strings it has. -/
def KeepsStrings (s : Text) (mode : Mode) : Prop :=
  ∃ items, reassemble s mode = Item.renderAll 0 items ∧
    Keeps mode 0 (places mode (Forest.ofText s).nodes) items

/-! ## Calm strings -/

/-- A node whose strings are not changed when it is written. -/
structure Node.Calm (mode : Mode) (n : Node) : Prop where
  heads : n.isBlock = true → ∀ t ∈ strings n.writtenHead, ',' ∉ t ∧ collapse t = t
  bodies : ∀ body ∈ n.own, Declarations.hidesNothing body = true ∧
    ∀ t ∈ strings body, collapse t = t
  /-- Statements that are the same but for blanks have the same strings. -/
  statements : mode = .merge → n.isBlock = false → Policy.identityOf n.head = .wholeText →
    ∀ t ∈ strings n.head, withoutBlanks t = t
  /-- Blocks are the same by their heads, but for fonts, which have no strings in their heads. -/
  keyed : mode = .merge → n.isBlock = true → n.head = ("@font-face" : Text) ∨
    ∀ name ∈ Policy.keyedByBody, ¬ name <+: n.head

/-! ## Nodes of one identity -/

theorem not_mem_sourceAt? {s source : Text} (h : sourceAt? s = some source) : ';' ∉ source := by
  unfold sourceAt? at h
  split at h
  · cases h
  split at h
  · simp only at h
    split at h
    · cases h
    obtain rfl := Option.some.inj h
    intro hmem
    have hvalue := List.all_eq_true.1 List.all_takeWhile _ (List.mem_of_mem_filter hmem)
    exact absurd hvalue (by decide)
  · cases h

/-- A source holds no semicolon. -/
theorem not_mem_source? {s source : Text} (h : source? s = some source) : ';' ∉ source := by
  have hfrom : ∀ s : Text, sourceFrom? s = some source → ';' ∉ source := by
    intro s
    induction s with
    | nil => exact fun h => by cases h
    | cons c s ih =>
      intro h
      rw [sourceFrom?] at h
      split at h
      · rcases Option.or_eq_some_iff.1 h with h | ⟨-, h⟩
        · exact not_mem_sourceAt? h
        · exact ih h
      · exact ih h
  rcases Option.or_eq_some_iff.1 h with h | ⟨-, h⟩
  · exact not_mem_sourceAt? h
  · exact hfrom s h

theorem Policy.atRuleName?_prefix {head name : Text} (h : atRuleName? head = some name) :
    name <+: head := by
  unfold atRuleName? at h
  split at h
  · obtain rfl := Option.some.inj h
    exact (List.prefix_cons_inj _).2 (List.takeWhile_prefix _)
  · cases h

namespace Node

/-- A font is known by its head and its source. -/
theorem identity_fontFace {n : Node} (hblock : n.isBlock = true)
    (hhead : n.head = ("@font-face" : Text)) :
    n.identity = ("@font-face" : Text) ++ (source? n.written).getD [] := by
  have hpolicy : Policy.identityOf ("@font-face" : Text) = .source := by decide
  have hblanks : withoutBlanks ("@font-face" : Text) = "@font-face" := by decide
  cases n with
  | statement text => cases hblock
  | leaf head written _ | nest head written _ _ =>
    obtain rfl : head = ("@font-face" : Text) := hhead
    simp only [identity, hpolicy, Node.written]
    cases source? written with
    | none => exact (List.append_nil _).symm
    | some source => rw [hblanks, Option.getD_some]

/-- A statement has the characters of its identity but for blanks. -/
theorem withoutBlanks_identity {n : Node} (hstatement : n.isBlock = false) :
    withoutBlanks n.identity = withoutBlanks n.head := by
  cases n with
  | leaf _ _ _ | nest _ _ _ _ => cases hstatement
  | statement text =>
    rw [identity, head]
    split
    · simp [withoutBlanks]
    · rfl

/-- A block that is known by its head, with or without a source, is not the same as a statement. -/
theorem IsRead.identity_ne {n m : Node} (hn : n.IsRead) (hm : m.IsRead)
    (hblock : n.isBlock = true) (hstatement : m.isBlock = false)
    (h : n.identity = n.head ∨ ∃ source, source? n.written = some source ∧
      n.identity = withoutBlanks n.head ++ source) : n.identity ≠ m.identity := by
  intro heq
  have hne : withoutBlanks n.identity ≠ withoutBlanks n.head := by
    rw [heq, withoutBlanks_identity hstatement]
    exact (hn.withoutBlanks_ne hm hblock hstatement).symm
  obtain hid | ⟨source, hsource, hid⟩ := h
  · exact hne (by rw [hid])
  · -- An empty source leaves the head alone; any other one ends the identity.
    cases hlast : source.getLast? with
    | none =>
      rw [hid, List.getLast?_eq_none_iff.1 hlast, List.append_nil] at hne
      exact hne (by simp [withoutBlanks])
    | some c =>
      have hend : m.identity.getLast? = some ';' := by
        cases hm with
        | statement _ => exact getLast?_identity_statement _
        | block hblock' _ _ _ => exact absurd (hblock'.symm.trans hstatement) (by decide)
      rw [← heq, hid, List.getLast?_append, hlast, Option.some_or, Option.some_inj] at hend
      subst hend
      exact not_mem_source? hsource (List.mem_of_getLast? hlast)

/-- A statement has the strings of its identity. -/
theorem Calm.strings_identity {n : Node} (h : n.Calm .merge) (hblock : n.isBlock = false) :
    strings n.head = strings n.identity := by
  cases n with
  | leaf _ _ _ | nest _ _ _ _ => cases hblock
  | statement text =>
    rw [identity, head]
    split
    · rename_i hidentity
      have hsame := List.map_congr_left (h.statements rfl rfl hidentity)
      rw [List.map_id'] at hsame
      exact ((strings_withoutBlanks text).trans hsame).symm
    · rfl

/-- A block that is no font is known by its head. -/
theorem Calm.block_identity {n : Node} (h : n.Calm .merge) (hblock : n.isBlock = true) :
    n.head = ("@font-face" : Text) ∨
      n.identity = n.head ∧ ¬ ("@font-face" : Text) <+: n.head := by
  refine (h.keyed rfl hblock).imp_right fun hkeyed => ⟨?_, hkeyed _ (by decide)⟩
  refine IsKeyedByHead.identity_eq (fun _ name hname hat => ?_) hblock
  exact hkeyed name hname (Policy.atRuleName?_prefix hat)

/-- A block is never the same as a statement. -/
theorem Calm.isBlock_congr {n m : Node} (hn : n.Calm .merge) (hm : m.Calm .merge)
    (hread : n.IsRead) (hread' : m.IsRead) (hid : n.identity = m.identity) :
    n.isBlock = m.isBlock := by
  have hkeyed : ∀ {n : Node}, n.Calm .merge → n.isBlock = true → n.identity = n.head ∨
      ∃ source, source? n.written = some source ∧ n.identity = withoutBlanks n.head ++ source := by
    intro n hn hblock
    rcases hn.block_identity hblock with hfont | ⟨hkeyed, -⟩
    · have hidentity := identity_fontFace hblock hfont
      have hblanks : withoutBlanks ("@font-face" : Text) = "@font-face" := by decide
      rw [hfont, hblanks]
      cases hsource : source? n.written with
      | none => exact .inl (by rw [hidentity, hsource, Option.getD_none, List.append_nil])
      | some source => exact .inr ⟨source, rfl, by rw [hidentity, hsource, Option.getD_some]⟩
    · exact .inl hkeyed
  cases hb : n.isBlock with
  | true =>
    cases hb' : m.isBlock with
    | true => rfl
    | false => exact (hread.identity_ne hread' hb hb' (hkeyed hn hb) hid).elim
  | false =>
    cases hb' : m.isBlock with
    | true => exact (hread'.identity_ne hread hb' hb (hkeyed hm hb') hid.symm).elim
    | false => rfl

/-- Blocks that are the same have the same head. -/
theorem Calm.head_congr {n m : Node} (hn : n.Calm .merge) (hm : m.Calm .merge)
    (hblock : n.isBlock = true) (hblock' : m.isBlock = true) (hid : n.identity = m.identity) :
    n.head = m.head := by
  rcases hn.block_identity hblock with hfont | ⟨hkeyed, hfont⟩ <;>
    rcases hm.block_identity hblock' with hfont' | ⟨hkeyed', hfont'⟩
  · rw [hfont, hfont']
  · have hidentity := identity_fontFace hblock hfont
    rw [hid, hkeyed'] at hidentity
    exact absurd ⟨_, hidentity.symm⟩ hfont'
  · have hidentity := identity_fontFace hblock' hfont'
    rw [← hid, hkeyed] at hidentity
    exact absurd ⟨_, hidentity.symm⟩ hfont
  · rw [← hkeyed, hid, hkeyed']

/-- Two nodes that may stand for each other: blocks with the same head, or statements with the same
strings. -/
structure Alike (n m : Node) : Prop where
  kind : n.isBlock = m.isBlock
  block : n.isBlock = true → n.head = m.head
  statement : n.isBlock = false → strings n.head = strings m.head

theorem Alike.refl (n : Node) : n.Alike n := ⟨rfl, fun _ => rfl, fun _ => rfl⟩

/-- Calm nodes that are the same may stand for each other. -/
theorem Calm.alike {n m : Node} (hn : n.Calm .merge) (hm : m.Calm .merge) (hread : n.IsRead)
    (hread' : m.IsRead) (hid : n.identity = m.identity) : n.Alike m where
  kind := hn.isBlock_congr hm hread hread' hid
  block hblock :=
    hn.head_congr hm hblock ((hn.isBlock_congr hm hread hread' hid).symm.trans hblock) hid
  statement hstatement := by
    have hstatement' := (hn.isBlock_congr hm hread hread' hid).symm.trans hstatement
    rw [hn.strings_identity hstatement, hid, hm.strings_identity hstatement']

end Node

/-! ## What one place is written as -/

/-- The nodes of a place may stand for each other if they are calm. -/
theorem alike_of_mem_places {mode : Mode} {nodes place : List Node}
    (hread : ∀ n ∈ nodes, n.IsRead) (hcalm : ∀ n ∈ nodes, n.Calm mode)
    (h : place ∈ places mode nodes) : ∀ n ∈ place, ∀ m ∈ place, n.Alike m := by
  intro n hn m hm
  cases mode with
  | concat =>
    obtain ⟨alone, -, rfl⟩ := List.mem_map.1 h
    rw [List.mem_singleton.1 hn, List.mem_singleton.1 hm]
    exact .refl alone
  | merge =>
    have hmem := mem_of_mem_places h
    obtain ⟨identity, -, rfl⟩ := List.mem_map.1 h
    have hsame : ∀ k ∈ Group.same nodes identity, k.identity = identity :=
      fun k hk => by simpa using (List.mem_filter.1 hk).2
    exact (hcalm n (hmem n hn)).alike (hcalm m (hmem m hm)) (hread n (hmem n hn))
      (hread m (hmem m hm)) ((hsame n hn).trans (hsame m hm).symm)

/-- What is written in a place: one of the statements, or a rule with the head of all blocks. -/
inductive StandsFor (mode : Mode) : (place : List Node) → Item → Prop
  | statement {place : List Node} {text : Text} :
      (∀ n ∈ place, n.isBlock = false ∧ strings n.head = strings text) →
      StandsFor mode place (.statement text)
  | rule {place : List Node} {head : Text} :
      (∀ n ∈ place, n.isBlock = true ∧ n.head = head) →
      StandsFor mode place (.rule head ((counting place).flatMap Node.own)
        (itemsOf mode (Node.sorted ((counting place).flatMap Node.children))))

theorem counting_subset {place : List Node} : ∀ n ∈ counting place, n ∈ place := by
  intro n hn
  unfold counting at hn
  split at hn
  · exact List.mem_of_getLast? (Option.mem_toList.1 hn)
  · exact hn

theorem counting_singleton (n : Node) : counting [n] = [n] := by
  unfold counting
  split <;> rfl

theorem counting_of_head {place : List Node} {head : Text} (hne : place ≠ [])
    (h : ∀ n ∈ place, n.head = head) :
    counting place = if Policy.replacesOf head then place.getLast?.toList else place := by
  have hall : place.all (Policy.replacesOf ·.head) = Policy.replacesOf head := by
    obtain ⟨n, hn⟩ := List.exists_mem_of_ne_nil _ hne
    rw [Bool.eq_iff_iff, List.all_eq_true]
    constructor
    · intro hall
      rw [← h n hn]
      exact hall n hn
    · intro hreplaces m hm
      rw [h m hm]
      exact hreplaces
  rw [counting, hall]

/-- Of blocks with one head, those that contribute are those that count. -/
theorem contributing_eq_counting {first : Node} {rest : List Node}
    (h : ∀ n ∈ first :: rest, n.isBlock = true ∧ n.head = first.head) :
    contributing (first :: rest) = counting (first :: rest) := by
  have hcollect := (Group.collect_cons first rest).symm.trans
    (Group.collect_blocks (List.cons_ne_nil first rest) h)
  rw [if_pos (h first List.mem_cons_self).1,
    ← counting_of_head (List.cons_ne_nil first rest) fun n hn => (h n hn).2] at hcollect
  exact (Group.blocks.inj (Option.some.inj hcollect)).2

/-- What fills a place stands for all its nodes if they may stand for each other. -/
theorem Fills.standsFor {mode : Mode} {place : List Node} {item : Item} (h : Fills mode place item)
    (halike : ∀ n ∈ place, ∀ m ∈ place, n.Alike m) : StandsFor mode place item := by
  cases h with
  | @statement first rest hfirst =>
    refine .statement fun n hn => ?_
    have hfirst' := halike n hn first List.mem_cons_self
    have hstatement := hfirst'.kind.trans hfirst
    exact ⟨hstatement, hfirst'.statement hstatement⟩
  | @rule first rest hfirst =>
    have hrule : ∀ n ∈ first :: rest, n.isBlock = true ∧ n.head = first.head := by
      intro n hn
      have hfirst' := halike n hn first List.mem_cons_self
      have hblock := hfirst'.kind.trans hfirst
      exact ⟨hblock, hfirst'.block hblock⟩
    rw [contributing_eq_counting hrule]
    exact .rule hrule

/-- **What calm siblings are written as: one item for each place, which stands for its nodes.** -/
theorem standsFor_itemsOf {mode : Mode} {nodes : List Node} (hread : ∀ n ∈ nodes, n.IsRead)
    (hcalm : ∀ n ∈ nodes, n.Calm mode) :
    List.Forall₂ (StandsFor mode) (places mode nodes) (itemsOf mode nodes) := by
  have hfills := (List.forall₂_and_left _ _).2
    ⟨fun place hplace => alike_of_mem_places hread hcalm hplace, fills_itemsOf hread⟩
  exact hfills.imp fun place item h => h.2.standsFor h.1

/-! ## Calm stylesheets -/

/-- **Calm siblings are written with their strings, at every depth.** -/
theorem keeps_itemsOf {mode : Mode} {nodes : List Node}
    (hread : ∀ n ∈ nodes, n.Everywhere Node.IsRead)
    (hcalm : ∀ n ∈ nodes, n.Everywhere (Node.Calm mode)) (depth : Nat) :
    Keeps mode depth (places mode nodes) (itemsOf mode nodes) := by
  induction nodes using Node.pool_induction generalizing depth with
  | nil =>
    cases mode with
    | concat => exact .nil
    | merge => exact .nil
  | step nodes ih =>
    have hplaces := standsFor_itemsOf (fun n hn => (hread n hn).here)
      fun n hn => (hcalm n hn).here
    have hmem : ∀ place ∈ places mode nodes, ∀ n ∈ place, n ∈ nodes :=
      fun place hplace => mem_of_mem_places hplace
    generalize places mode nodes = ps at hplaces hmem
    generalize itemsOf mode nodes = items at hplaces
    induction hplaces with
    | nil => exact .nil
    | @cons place item ps items hplace _ ihRest =>
      rw [List.forall_mem_cons] at hmem
      have hrest := ihRest hmem.2
      cases hplace with
      | statement hstatement => exact .statement hstatement hrest
      | @rule head hrule =>
        have hcounts : ∀ n ∈ counting place, n ∈ nodes :=
          fun n hn => hmem.1 n (counting_subset n hn)
        refine .rule ?_ ?_ ?_ hrest
        · intro n hn
          obtain ⟨hblock, rfl⟩ := hrule n hn
          refine ⟨hblock, ?_⟩
          cases (hread n (hmem.1 n hn)).here with
          | statement _ => cases hblock
          | block _ hhead _ _ =>
            rw [hhead, strings_writtenHead ((hcalm n (hmem.1 n hn)).here.heads hblock)]
        · refine Declarations.strings_ofBodies fun body hbody => ?_
          obtain ⟨n, hn, hbody⟩ := List.mem_flatMap.1 hbody
          exact (hcalm n (hcounts n hn)).here.bodies body hbody
        · refine ih (counting place) hcounts ?_ ?_ (depth + 1)
          · exact fun n hn => Node.Everywhere.pool hread hcounts n (Node.mem_sorted.1 hn)
          · exact fun n hn => Node.Everywhere.pool hcalm hcounts n (Node.mem_sorted.1 hn)

/-- **A stylesheet with calm strings is written with its strings, in either mode.** -/
theorem keepsStrings_of_calm {s : Text} {mode : Mode}
    (h : ∀ n ∈ (Forest.ofText s).nodes, n.Everywhere (Node.Calm mode)) : KeepsStrings s mode := by
  refine ⟨itemsOf mode (Forest.ofText s).nodes, ?_, ?_⟩
  · rw [reassemble, Forest.write]
    cases mode <;> rfl
  · refine keeps_itemsOf ?_ h 0
    exact fun n hn => isRead_readNodes (stripComments s) n (Node.mem_sorted.1 hn)

/-- A statement with a semicolon in its string, and two rules with the same head. -/
def calmSheet : Text :=
  "@import \"a;b\";" ++ ".a[title=\"x y\"]\x7bcontent:\"b: c\"\x7d" ++
    ".a[title=\"x y\"]\x7bquotes:\"<\" \">\"\x7d"

theorem keepsStrings_calmSheet :
    (∀ n ∈ (Forest.ofText calmSheet).nodes, n.Everywhere (Node.Calm .merge)) ∧
      KeepsStrings calmSheet .merge := by
  have hcalm : ∀ n ∈ (Forest.ofText calmSheet).nodes, n.Everywhere (Node.Calm .merge) := by
    have himport : nextConstruct calmSheet = some ⟨[], .statement "@import \"a;b\";",
        calmSheet.drop 14⟩ := by
      decide
    have hfirst : nextConstruct (calmSheet.drop 14) =
        some ⟨[], .block ".a[title=\"x y\"]" "content:\"b: c\"" true, calmSheet.drop 45⟩ := by
      decide
    have hsecond : nextConstruct (calmSheet.drop 45) =
        some ⟨[], .block ".a[title=\"x y\"]" "quotes:\"<\" \">\"" true, []⟩ := by
      decide
    intro n hn
    have hn := Node.mem_sorted.1 hn
    rw [stripComments_of_isClean (by decide), readNodes_of_some himport,
      readNodes_leaf hfirst (by decide) (by decide),
      readNodes_leaf hsecond (by decide) (by decide),
      readNodes_of_none (by decide)] at hn
    simp only [Construct.node?, Option.toList_some, List.singleton_append, List.mem_cons,
      List.not_mem_nil, or_false] at hn
    rcases hn with rfl | rfl | rfl
    all_goals
      refine .intro ⟨?_, ?_, ?_, ?_⟩ fun _ hchild => absurd hchild List.not_mem_nil
      all_goals decide
  exact ⟨hcalm, keepsStrings_of_calm hcalm⟩

/-! ## Strings that are cut -/

/-- The parentheses, braces and quotes that are open behind one more character, the last one first;
none if the character may not stand there. No brace and no other quote may stand within quotes. -/
def balanceStep (opened : List Char) (c : Char) : Option (List Char) :=
  match opened.head?.filter isQuote with
  | some q =>
    if c = q then some opened.tail
    else if isQuote c || c == '\x7b' || c == '\x7d' then none
    else some opened
  | none =>
    if isQuote c || c == '(' || c == '\x7b' then some (c :: opened)
    else if c = ')' then if opened.head? = some '(' then some opened.tail else none
    else if c = '\x7d' then if opened.head? = some '\x7b' then some opened.tail else none
    else some opened

/-- Whether a text has no comments and its quotes, parentheses and braces close each other, with no
brace and no quote in a string. -/
def isBalanced (s : Text) : Bool := isClean s && s.foldlM balanceStep [] == some []

/-- A value that is declared stands in the written rule. -/
theorem infix_render_of_mem {head : Text} {bodies : List Text} {inner : List Item} {d : Text × Text}
    (h : d ∈ Declarations.ofBodies bodies) (depth : Nat) :
    d.2 <:+: (Item.rule head bodies inner).render depth := by
  have hline : d.2 <:+: declarationLine depth d := ⟨"\n\t" ++ tabs depth ++ d.1 ++ ": ", ";", rfl⟩
  have hlines : declarationLine depth d <:+:
      (Declarations.ofBodies bodies).flatMap (declarationLine depth) := by
    rw [List.flatMap_def]
    exact List.infix_of_mem_flatten (List.mem_map_of_mem h)
  refine (hline.trans hlines).trans ?_
  rw [Item.render]
  exact (List.infix_append _ _ _).trans
    ((List.prefix_append _ _).trans (List.prefix_append _ _)).isInfix

/-- A value is cut at the semicolon in its string, and what stands behind it is lost. -/
theorem not_keepsStrings_of_isBalanced :
    ¬ ∀ (s : Text) (mode : Mode), isBalanced s = true → KeepsStrings s mode := by
  intro h
  have hnext : nextConstruct ".a\x7bcontent:\"b;c\"\x7d" =
      some ⟨[], .block ".a" "content:\"b;c\"" true, []⟩ := by
    decide
  have hnodes : (Forest.ofText ".a\x7bcontent:\"b;c\"\x7d").nodes =
      [.leaf ".a" ".a\x7bcontent:\"b;c\"\x7d" "content:\"b;c\""] := by
    have hsorted : (Forest.ofText ".a\x7bcontent:\"b;c\"\x7d").nodes =
        Node.sorted (readNodes (stripComments ".a\x7bcontent:\"b;c\"\x7d")).1 := rfl
    have hread := readNodes_leaf hnext (by decide) (by decide)
    rw [readNodes_of_none (s := []) (by decide)] at hread
    rw [hsorted, stripComments_of_isClean (by decide), hread,
      Node.sorted_of_pairwise (List.pairwise_singleton _ _)]
    rfl
  obtain ⟨items, hwritten, hkeeps⟩ := h ".a\x7bcontent:\"b;c\"\x7d" .concat (by decide)
  have houtput : reassemble ".a\x7bcontent:\"b;c\"\x7d" .concat =
      ".a\x7b\n\tcontent: \"b;\n\x7d" := by
    rw [reassemble, Forest.write, Forest.items, hnodes]
    decide
  rw [hnodes] at hkeeps
  cases hkeeps with
  | statement hplace _ => exact absurd (hplace _ (List.mem_singleton_self _)).1 (by decide)
  | @rule _ _ _ head bodies inner _ _ hvalues _ hrest =>
    cases hrest
    have hsource : (Declarations.writtenIn ["content:\"b;c\""]).map
        (fun d => (d.1, strings d.2)) = [(("content" : Text), [("\"b;c\"" : Text)])] := by
      decide
    -- The output has a value with the string, so it has both of its quotes.
    rw [counting_singleton, List.flatMap_singleton, Node.own, hsource] at hvalues
    obtain ⟨d, ds, hds, hd, -⟩ := List.map_eq_cons_iff.1 hvalues
    have hstring : ("\"b;c\"" : Text) <:+: d.2 := by
      refine infix_of_mem_strings ?_
      rw [(Prod.mk.inj hd).2]
      exact List.mem_singleton_self _
    have hvalue : d.2 <:+: (Item.rule head bodies inner).render 0 :=
      infix_render_of_mem (hds ▸ List.mem_cons_self) 0
    have hwhole := hstring.trans hvalue
    rw [Item.renderAll, houtput] at hwritten
    rw [← hwritten] at hwhole
    exact absurd (hwhole.sublist.count_le '"') (by decide)

end UtilitySheet.Sheet
