import Flowchart.Proofs.Script.Arrow

/-! Comments, statements, connectors, labels and groups are all looked for outside quotes. Only
classes are cut off a node without regard to quotes; then one quote is left alone in front of the
marker and stays in what the node is taken for. -/
namespace Flowchart.Script

open Source

/-- Where a text has one quote only, there is no pair of quotes to take away. -/
theorem mem_unquote {s : List Char} (h : s.count '"' = 1) : '"' ∈ Text.unquote s := by
  have hcount : (Text.trim s).count '"' = 1 := by rw [Text.count_trim rfl, h]
  have hmem : '"' ∈ Text.trim s := List.count_pos_iff.1 (by omega)
  unfold Text.unquote
  dsimp only
  split
  · next r hr =>
    rw [hr, List.count_cons_self] at hcount
    have hlast : r.getLast? ≠ some '"' := by
      intro hquote
      have hr : 0 < r.count '"' := List.count_pos_iff.2 (List.mem_of_getLast? hquote)
      omega
    rw [if_neg hlast]
    exact hmem
  · exact hmem

/-- A lone quote is not lost with the wrapper. -/
theorem mem_of_wrapped? {s label : List Char} {shape : NodeShape}
    (h : wrapped? s = some (label, shape)) (hs : s.count '"' = 1) : '"' ∈ label := by
  have hplain : ∀ w ∈ wrappers, w.opening.count '"' = 0 ∧ w.closing.count '"' = 0 := by decide
  obtain ⟨w, hw, inside, rfl, rfl, -⟩ := exists_of_wrapped? h
  apply mem_unquote
  obtain ⟨hopening, hclosing⟩ := hplain w hw
  rw [List.count_append, List.count_append] at hs
  omega

/-- A token with a lone quote refers to a node, and the quote is in the identifier or in the text. -/
theorem readBase?_of_lone {base : List Char} (h : base.count '"' = 1) :
    ∃ id wrapper, readBase? base = some (id, wrapper) ∧
      ('"' ∈ id ∨ ∃ label shape, wrapper = some (label, shape) ∧ '"' ∈ label) := by
  have hcount : (Text.trim base).count '"' = 1 := by rw [Text.count_trim rfl, h]
  have hmem : '"' ∈ Text.trim base := List.count_pos_iff.1 (by omega)
  have hempty : (Text.trim base).isEmpty = false := by simpa using List.ne_nil_of_mem hmem
  unfold readBase?
  simp only [hempty, Bool.false_eq_true, if_false]
  cases hwrapped : wrapped? ((Text.trim base).dropWhile (!isShapeOpener ·)) with
  | none => exact ⟨_, _, rfl, .inl hmem⟩
  | some found =>
    obtain ⟨label, shape⟩ := found
    dsimp only
    rw [← List.takeWhile_append_dropWhile (p := (!isShapeOpener ·)) (l := Text.trim base),
      List.count_append] at hcount
    -- the quote stands in front of the wrapper or inside it
    by_cases hfront : '"' ∈ (Text.trim base).takeWhile (!isShapeOpener ·)
    · have hid : '"' ∈ Text.trim ((Text.trim base).takeWhile (!isShapeOpener ·)) := by
        rw [← List.count_pos_iff, Text.count_trim rfl]
        exact List.count_pos_iff.2 hfront
      have hne : (Text.trim ((Text.trim base).takeWhile (!isShapeOpener ·))).isEmpty = false := by
        simpa using List.ne_nil_of_mem hid
      simp only [hne, Bool.false_eq_true, if_false]
      exact ⟨_, _, rfl, .inl hid⟩
    · rw [List.count_eq_zero_of_not_mem hfront, Nat.zero_add] at hcount
      have hlabel : '"' ∈ label := mem_of_wrapped? hwrapped hcount
      have hne : label.isEmpty = false := by simpa using List.ne_nil_of_mem hlabel
      refine ⟨_, _, if_neg ?_, .inr ⟨label, shape, rfl, hlabel⟩⟩
      split
      · simp [hne]
      · next hid => exact hid

section Link

variable (x : Name) {w : Wrapper} (hw : w ∈ wrappers) {s : List Char} (hquote : '"' ∉ s)
include hw hquote

/-- With a class marker in the text, the quote in front of it stays in the identifier or in the
text. -/
theorem readRef?_of_marked (hmarked : classMarker <:+: s) (j : Nat) :
    ∃ r, readRef? (x.chars ++ quoted w s ++ blanks j) = some r ∧
      ('"' ∈ r.id.toList ∨ ∃ label, r.label = some label ∧ '"' ∈ label.toList) := by
  have hplain : ∀ w ∈ wrappers, w.opening.count '"' = 0 ∧ ':' ∉ w.opening := by decide
  obtain ⟨hopening, hcolon⟩ := hplain w hw
  have hname (c : Char) (hc : isPlain c = false) : c ∉ x.chars := by
    intro hmem
    exact ne_of_isPlain (isPlain_of_isNameChar (x.legal c hmem)) hc rfl
  have hfront : ':' ∉ x.chars ++ (w.opening ++ ['"']) := by
    simp [hname ':' rfl, hcolon]
  obtain ⟨piece, rest, hsplit, hpiece⟩ := splitAt_of_infix hmarked ('"' :: w.closing ++ blanks j)
  obtain ⟨piece', rest', hsplit', htoken⟩ :=
    splitAt_append hfront (s ++ ('"' :: w.closing ++ blanks j))
  obtain ⟨rfl, rfl⟩ := List.cons.inj (hsplit.symm.trans hsplit')
  have hform : x.chars ++ quoted w s ++ blanks j =
      x.chars ++ (w.opening ++ ['"']) ++ (s ++ ('"' :: w.closing ++ blanks j)) := by
    simp [quoted]
  have hlone : (x.chars ++ (w.opening ++ ['"']) ++ piece).count '"' = 1 := by
    have hinside : '"' ∉ piece := fun hmem => hquote (hpiece.subset hmem)
    simp [List.count_append, hopening, List.count_eq_zero_of_not_mem (hname '"' rfl),
      List.count_eq_zero_of_not_mem hinside]
  obtain ⟨id, wrapper, hbase, hkept⟩ := readBase?_of_lone hlone
  rw [hform, readRef?, htoken]
  dsimp only
  rw [hbase, Option.map_some]
  refine ⟨_, rfl, ?_⟩
  rcases hkept with hid | ⟨label, shape, rfl, hlabel⟩
  · exact .inl (by simpa using hid)
  · exact .inr ⟨String.ofList label, rfl, by simpa using hlabel⟩

theorem readRef?_of_unmarked (hfeed : '\n' ∉ s) (hunmarked : ¬ classMarker <:+: s) (j : Nat) :
    readRef? (x.chars ++ quoted w s ++ blanks j) =
      some ⟨String.ofList x.chars, some (String.ofList s), some w.shape, []⟩ :=
  readRef?_print 0 j ⟨x, some ⟨w, mem_brackets_iff.2 hw, ⟨s, hquote, hfeed, hunmarked⟩⟩⟩

theorem kept_quoted (hfeed : '\n' ∉ s) (y : Name) : Kept x y (quoted w s) := by
  have hshown {p : Char → Bool} (hp : ∀ c, isFrame c = true → p c = true) :
      (shownScanner p).Still .neutral (quoted w s) :=
    quoted_still_shown hw hp hquote
  have hbut {d : Char} (hplain : isPlain d = false) (hframe : isFrame d = false) :
      (shownScanner (· != d)).Still .neutral (quoted w s) :=
    hshown fun _ hc => bne_iff_ne.2 (ne_of_shown (.inr hc) hplain hframe)
  have hbare : (shownScanner isBare).Still .neutral (x.chars ++ quoted w s) :=
    (x.still plain_bare).append (hshown fun _ hc => isBare_of_shown (.inr hc))
  exact {
    parted := parted_quoted hw s _
    oneLine := lineScanner_still_iff.1 (quoted_still_lineScanner hw hfeed)
    uncommented := quoted_still_commentScanner hw hquote
    whole := hbut rfl rfl
    single := hbut rfl rfl
    unlabelled := quoted_still_pipeScanner hw hquote
    split := splitConnectors?_hopTo hbare y }

theorem says_quoted (hfeed : '\n' ∉ s) (y : Name) {r : NodeRef}
    (hr : readRef? (x.chars ++ quoted w s ++ blanks 1) = some r) :
    Says (x.chars ++ quoted w s ++ (hopTo y).print) (.chain ⟨[r], [(hopTo y).link]⟩) :=
  Kept.says (kept_quoted x hw hquote hfeed y) hr

end Link

section Arrow

variable (d : Defaults) (r : NodeRef) (y : Name)

def arrowGraph : Graph := (({} : State).apply d (.chain ⟨[r], [(hopTo y).link]⟩)).finish

theorem keys_arrowGraph :
    (arrowGraph d r y).nodes.keys = State.addKey [r.id] (String.ofList y.chars) :=
  keys_linkGraph d r (Mention.ref ⟨y, none⟩) (hopTo y).connector none

theorem edges_arrowGraph : (arrowGraph d r y).edges.map (fun e => (e.source, e.target)) =
    [(r.id, String.ofList y.chars)] := by
  have hedges := edges_linkGraph d r (Mention.ref ⟨y, none⟩) (hopTo y).connector none
  have hends := congrArg (List.map fun e => (e.1, e.2.1)) hedges
  rwa [List.map_map] at hends

theorem node?_arrowGraph : (arrowGraph d r y).node? r.id = some (freshNode d none r) :=
  node?_linkGraph d r (Mention.ref ⟨y, none⟩) (hopTo y).connector none

end Arrow

/-- Two nodes, `A` with a text and `B`, and one edge from `A` to `B`. -/
structure Literal (g : Graph) (text : List Char) (shape : NodeShape) : Prop where
  nodes : g.nodes.keys = ["A", "B"]
  edges : g.edges.map (fun e => (e.source, e.target)) = [("A", "B")]
  node : ∃ n, g.node? "A" = some n ∧ n.label = String.ofList text ∧ n.shape = shape

/-- Under every theme and in every wrapper, a text between quotes is the text of the node character
for character if and only if it holds no class marker. -/
theorem readWith_quoted_iff (t : Theme) {w : Wrapper} (hw : w ∈ wrappers) {s : List Char}
    (hquote : '"' ∉ s) (hfeed : '\n' ∉ s) :
    Literal (readWith t (String.ofList ('A' :: quoted w s ++ " --> B".toList))).graph s w.shape ↔
      ¬ classMarker <:+: s := by
  have hline : 'A' :: quoted w s ++ " --> B".toList =
      nameA.chars ++ quoted w s ++ (hopTo nameB).print := rfl
  have hgraph {r : NodeRef} (hr : readRef? (nameA.chars ++ quoted w s ++ blanks 1) = some r) :
      (readWith t (String.ofList ('A' :: quoted w s ++ " --> B".toList))).graph =
        arrowGraph (.ofTheme t) r nameB := by
    rw [hline, (says_quoted nameA hw hquote hfeed nameB hr).readWith t, arrowGraph]
  constructor
  · intro hliteral hmarked
    obtain ⟨r, hr, hkept⟩ := readRef?_of_marked nameA hw hquote hmarked 1
    rw [hgraph hr] at hliteral
    have hid : r.id = "A" := by
      have hkeys := hliteral.nodes
      have hmem : "A" ∈ State.addKey [r.id] "B" := by
        rw [keys_arrowGraph] at hkeys
        exact hkeys ▸ List.mem_cons_self
      unfold State.addKey at hmem
      split at hmem <;> simpa [eq_comm] using hmem
    -- the quote is not in the name, so it is in the text
    rcases hkept with hname | ⟨label, hlabel, hmem⟩
    · rw [hid] at hname
      exact absurd hname (by decide)
    · obtain ⟨n, hn, htext, -⟩ := hliteral.node
      have hnode := node?_arrowGraph (.ofTheme t) r nameB
      rw [hid, hn] at hnode
      have heq : String.ofList s = label := by
        rw [← htext, Option.some.inj hnode]
        simp [freshNode, Node.new, hlabel]
      rw [← heq, String.toList_ofList] at hmem
      exact hquote hmem
  · intro hunmarked
    have hr := readRef?_of_unmarked nameA hw hquote hfeed hunmarked 1
    rw [hgraph hr]
    exact ⟨keys_arrowGraph _ _ _, edges_arrowGraph _ _ _, _, node?_arrowGraph _ _ _, rfl, rfl⟩

/-- Markers, pipes, ampersands, semicolons, colons, brackets and percent signs are text. -/
theorem marksInHexagon_literal :
    Literal (readWith .standard "A\x7b\x7b\"x --> |y| & z; ::[(%% \"\x7d\x7d --> B").graph
      "x --> |y| & z; ::[(%% ".toList .hexagon := by
  have hw : (⟨['\x7b', '\x7b'], ['\x7d', '\x7d'], .hexagon⟩ : Wrapper) ∈ wrappers := by decide
  have hsource : "A\x7b\x7b\"x --> |y| & z; ::[(%% \"\x7d\x7d --> B" = String.ofList
      ('A' :: quoted ⟨['\x7b', '\x7b'], ['\x7d', '\x7d'], .hexagon⟩
        "x --> |y| & z; ::[(%% ".toList ++ " --> B".toList) := by
    decide +kernel
  rw [hsource]
  exact (readWith_quoted_iff .standard hw (by decide) (by decide)).2 (by decide)

/-- A class marker in a text makes another node. -/
theorem markedText_not_literal :
    ¬ Literal (readWith .standard "A[\"x:::y\"] --> B").graph "x:::y".toList .rectangle := by
  intro hliteral
  have hkeys : (readWith .standard "A[\"x:::y\"] --> B").graph.nodes.keys = ["A[\"x", "B"] := by
    decide +kernel
  have hnames := hliteral.nodes.symm.trans hkeys
  exact absurd hnames (by decide)

end Flowchart.Script
