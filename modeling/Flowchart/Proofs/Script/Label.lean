import Flowchart.Proofs.Script.Arrow

/-! For the line as a whole nothing between pipes counts. But when the label is taken out of its
token, brackets in it count again, and a pipe inside them is none. -/
namespace Flowchart.Script

open Source

structure Lettering (s : List Char) : Prop where
  visible : ∃ c ∈ s, Text.isBlank c = false
  unpiped : '|' ∉ s
  unquoted : '"' ∉ s
  oneLine : '\n' ∉ s
  uncommented : ¬ ['%', '%'] <:+: s

/-- No ending of the text opens more brackets than it closes; any kind closes any other. -/
def Closed (s : List Char) : Prop := ∀ e, e <:+ s → e.countP isOpener ≤ e.countP isCloser

instance (s : List Char) : Decidable (Closed s) :=
  decidable_of_iff (∀ e ∈ s.tails, e.countP isOpener ≤ e.countP isCloser) (by simp [Closed])

theorem closed_cons {c : Char} {s : List Char} :
    Closed (c :: s) ↔ (c :: s).countP isOpener ≤ (c :: s).countP isCloser ∧ Closed s := by
  constructor
  · intro h
    exact ⟨h _ List.suffix_rfl, fun e he => h e (he.trans (List.suffix_cons c s))⟩
  · rintro ⟨hwhole, hrest⟩ e he
    rcases List.suffix_cons_iff.1 he with rfl | he
    · exact hwhole
    · exact hrest e he

theorem isCloser_of_isOpener {c : Char} (h : isOpener c = true) : isCloser c = false := by
  simp only [isOpener, Bool.or_eq_true, beq_iff_eq] at h
  rcases h with (rfl | rfl) | rfl <;> rfl

/-- No bracket is open after a text if and only if it closes all that are open before it and leaves
none of its own open. -/
theorem run?_pipeScanner {s : List Char} (hpipe : '|' ∉ s) (hquote : '"' ∉ s) (before : Nat) :
    ∃ depth, pipeScanner.run? ⟨false, before⟩ s = some ⟨false, depth⟩ ∧
      (depth = 0 ↔ before + s.countP isOpener ≤ s.countP isCloser ∧ Closed s) := by
  induction s generalizing before with
  | nil =>
    have hclosed : Closed [] := by
      intro e he
      rw [List.suffix_nil.1 he]
      exact Nat.le_refl 0
    exact ⟨before, rfl, by simp [hclosed]⟩
  | cons c s ih =>
    obtain ⟨hc, hpipe⟩ := not_or.1 (mt List.mem_cons.2 hpipe)
    obtain ⟨hc', hquote⟩ := not_or.1 (mt List.mem_cons.2 hquote)
    have hfine : pipeScanner.fine ⟨false, before⟩ c = true := by
      simp [pipeScanner, PipeNesting.isPipe, Ne.symm hc]
    have hnext : pipeScanner.next ⟨false, before⟩ c =
        ⟨false, if isOpener c then before + 1 else if isCloser c then before - 1 else before⟩ := by
      simp only [pipeScanner, PipeNesting.next, Bool.false_eq_true, if_false, if_neg (Ne.symm hc')]
      split
      · rfl
      · split <;> rfl
    obtain ⟨depth, hrun, hdepth⟩ := ih hpipe hquote
      (if isOpener c then before + 1 else if isCloser c then before - 1 else before)
    refine ⟨depth, by rw [Scanner.run?_cons hfine, hnext, hrun], ?_⟩
    rw [hdepth, closed_cons]
    -- the rest is closed or not whatever is open before it; if it is, the two counts decide
    by_cases hclosed : Closed s
    · have hself := hclosed s List.suffix_rfl
      simp only [hclosed, and_true, List.countP_cons]
      cases hopener : isOpener c with
      | true =>
        simp only [isCloser_of_isOpener hopener, if_true, Bool.false_eq_true, if_false]
        omega
      | false =>
        cases isCloser c with
        | true =>
          simp only [if_true, Bool.false_eq_true, if_false]
          omega
        | false =>
          simp only [Bool.false_eq_true, if_false]
          omega
    · simp only [hclosed, and_false]

section Token

variable {s : List Char} (hs : Lettering s)
include hs

theorem takeLabel_of_closed (hclosed : Closed s) (y : Name) :
    takeLabel (piped s ++ y.chars) = (some (Text.trim s), blanks 1 ++ y.chars) := by
  obtain ⟨depth, hrun, hdepth⟩ := run?_pipeScanner hs.unpiped hs.unquoted 0
  have hzero : depth = 0 := hdepth.2 ⟨by simpa using hclosed s List.suffix_rfl, hclosed⟩
  subst hzero
  exact takeLabel_piped 0 hs.unquoted hs.visible hrun rfl y.chars

/-- Inside a bracket that is left open the second pipe is text. -/
theorem takeLabel_of_not_closed (hopen : ¬ Closed s) (y : Name) :
    takeLabel (piped s ++ y.chars) = (none, piped s ++ y.chars) := by
  obtain ⟨depth, hrun, hdepth⟩ := run?_pipeScanner hs.unpiped hs.unquoted 0
  have hdeep : depth ≠ 0 := fun hzero => hopen (hdepth.1 hzero).2
  have hpipe : pipeScanner.Still ⟨false, depth⟩ ['|', ' '] := by
    simp [Scanner.Still, Scanner.run?, pipeScanner, PipeNesting.isPipe, PipeNesting.next, isOpener,
      isCloser, hdeep]
  have hinside := Scanner.run?_append (Scanner.run?_append hrun hpipe)
    (y.still (plain_pipeScanner depth))
  have hform : piped s ++ y.chars = '|' :: (s ++ ['|', ' '] ++ y.chars) := by simp [piped]
  have hfirst : cutAtPipe? {} (piped s ++ y.chars) = some ([], {}, s ++ ['|', ' '] ++ y.chars) := by
    rw [hform]
    exact cutAtPipe?_append (s := []) rfl rfl _
  rw [takeLabel, hfirst]
  simp only [cutAtPipe?_of_run? hinside]

end Token

/-- The identifier of a token begins as the token does. -/
theorem readRef?_of_head {c : Char} (hcolon : c ≠ ':') (hblank : Text.isBlank c = false)
    (hopener : isShapeOpener c = false) (t : List Char) :
    ∃ r, readRef? (c :: t) = some r ∧ r.id.toList.head? = some c := by
  obtain ⟨piece, rest, -, hsplit⟩ := splitAt_append (s := [c]) (by simpa using hcolon.symm) t
  have htrim (s : List Char) : Text.trim (c :: s) = c :: Text.trimEnd s := by
    rw [Text.trim, Text.trimStart, List.dropWhile_cons_of_neg (by simp [hblank]),
      Text.trimEnd_cons hblank]
  have hbase : ∃ id wrapper, readBase? (c :: piece) = some (c :: id, wrapper) := by
    have htake (s : List Char) : (c :: s).takeWhile (!isShapeOpener ·) =
        c :: s.takeWhile (!isShapeOpener ·) :=
      List.takeWhile_cons_of_pos (by simp [hopener])
    rw [readBase?, htrim]
    simp only [List.isEmpty_cons, Bool.false_eq_true, if_false, htake, htrim]
    cases wrapped? ((c :: Text.trimEnd piece).dropWhile (!isShapeOpener ·)) with
    | none => exact ⟨_, _, rfl⟩
    | some found => exact ⟨_, _, rfl⟩
  obtain ⟨id, wrapper, hbase⟩ := hbase
  have hform : c :: t = [c] ++ t := rfl
  rw [hform, readRef?, hsplit]
  dsimp only [List.singleton_append]
  rw [hbase]
  exact ⟨_, rfl, by simp⟩

section Line

variable (x y : Name) {s : List Char} (hs : Lettering s)
include hs

theorem splitConnectors?_labelled :
    splitConnectors? (x.chars ++ (" -->".toList ++ (piped s ++ y.chars))) =
      some (x.chars ++ blanks 1, [(arrow, piped s ++ y.chars)]) := by
  have hname (x : Name) : (shownScanner isBare).Still .neutral x.chars := x.still plain_bare
  have hblank : (shownScanner isBare).Still .neutral (blanks 1) := rfl
  have htoken := (piped_still_shown (p := isBare) rfl hs.unpiped hs.unquoted).append (hname y)
  have hlast := cutConnectors_cells htoken []
  rw [List.append_nil] at hlast
  -- a pipe comes behind the arrow, so no longer marker stands there
  have harrow : cutConnectors 0 (cells ("-->".toList ++ (piped s ++ y.chars))) =
      ([], (arrow, (cutConnectors 0 (cells (piped s ++ y.chars))).1) ::
        (cutConnectors 0 (cells (piped s ++ y.chars))).2) := rfl
  have hcut := cutConnectors_cells ((hname x).append hblank) ("-->".toList ++ (piped s ++ y.chars))
  rw [harrow, hlast] at hcut
  have hform : x.chars ++ (" -->".toList ++ (piped s ++ y.chars)) =
      x.chars ++ blanks 1 ++ ("-->".toList ++ (piped s ++ y.chars)) := by
    simp [blanks]
  rw [hform, splitConnectors?, hcut]
  simp [cells, cellsFrom, cutConnectors]

theorem readChain?_labelled {label : Option (List Char)} {nodes : List Char} {r : NodeRef}
    (htake : takeLabel (piped s ++ y.chars) = (label, nodes)) (hr : readGroup? nodes = some [r]) :
    readChain? (x.chars ++ (" -->".toList ++ (piped s ++ y.chars))) =
      some ⟨[Mention.ref ⟨x, none⟩], [⟨arrow, label.map String.ofList, [r]⟩]⟩ := by
  let first : Group := ⟨⟨x, none⟩, []⟩
  have hprint : x.chars ++ blanks 1 = blanks 0 ++ first.print ++ blanks 1 := by
    simp [first, Group.print, Mention.print, blanks]
  have hlabel : takeLabel (blanks 0 ++ first.print ++ blanks 1) =
      (none, blanks 0 ++ first.print ++ blanks 1) :=
    takeLabel_group 0 first [hopTo y]
  have hgroup := readGroup?_print 0 1 first
  rw [readChain?, splitConnectors?_labelled x y hs, hprint]
  simp only [Option.bind_eq_bind, Option.bind_some, hlabel, hgroup, readLinks?, htake, hr,
    Option.pure_def]
  rfl

theorem says_labelled {label : Option (List Char)} {nodes : List Char} {r : NodeRef}
    (htake : takeLabel (piped s ++ y.chars) = (label, nodes)) (hr : readGroup? nodes = some [r]) :
    Says (x.chars ++ (" -->".toList ++ (piped s ++ y.chars)))
      (.chain ⟨[Mention.ref ⟨x, none⟩], [⟨arrow, label.map String.ofList, [r]⟩]⟩) := by
  have hform : " -->".toList ++ (piped s ++ y.chars) = " -->".toList ++ piped s ++ y.chars :=
    (List.append_assoc _ _ _).symm
  have hparted : Parted (" -->".toList ++ piped s ++ y.chars) := hform ▸ parted_blank _
  have hfeed : '\n' ∉ " -->".toList ++ piped s := by simp [piped, hs.oneLine]
  have hcomment : commentScanner.Still {} " -->".toList := rfl
  have hspoken := spoken_between x y hparted hfeed
    (hcomment.append (piped_still_commentScanner hs.unquoted hs.uncommented))
  have hsemicolon : Plain (shownScanner (· != ';')) .neutral := plain_but rfl
  have hmark : (shownScanner (· != ';')).Still .neutral " -->".toList := rfl
  have hlabel := piped_still_shown (p := (· != ';')) rfl hs.unpiped hs.unquoted
  have hread := readChain?_labelled x y hs htake hr
  rw [hform] at hread ⊢
  exact { hspoken with
    whole := (x.still hsemicolon).append ((hmark.append hlabel).append (y.still hsemicolon))
    read := by
      rw [read_name x hparted, hread]
      rfl }

end Line

/-- Two nodes, `A` and `B`, and one edge from `A` to `B` with a label. -/
structure Labelled (g : Graph) (label : List Char) : Prop where
  nodes : g.nodes.keys = ["A", "B"]
  edges : g.edges.map (fun e => (e.source, e.target, e.label)) =
    [("A", "B", some (String.ofList label))]

/-- Under every theme, a text between pipes is the label of the edge, but for blanks around it, if
and only if it leaves no bracket open. -/
theorem readWith_labelled_iff (t : Theme) {s : List Char} (hs : Lettering s) :
    Labelled (readWith t (String.ofList ("A -->|".toList ++ s ++ "| B".toList))).graph
      (Text.trim s) ↔ Closed s := by
  have hline : "A -->|".toList ++ s ++ "| B".toList =
      nameA.chars ++ (" -->".toList ++ (piped s ++ nameB.chars)) := by
    simp [nameA, nameB, piped]
  have hgraph {label : Option (List Char)} {nodes : List Char} {r : NodeRef}
      (htake : takeLabel (piped s ++ nameB.chars) = (label, nodes))
      (hr : readGroup? nodes = some [r]) :
      (readWith t (String.ofList ("A -->|".toList ++ s ++ "| B".toList))).graph =
        linkGraph (.ofTheme t) (Mention.ref ⟨nameA, none⟩) r arrow (label.map String.ofList) := by
    rw [hline, (says_labelled nameA nameB hs htake hr).readWith t, linkGraph]
  constructor
  · intro hlabelled
    by_contra hopen
    -- the token is one node, whose identifier begins with a pipe
    have hgroup : groupParts (piped s ++ nameB.chars) = [piped s ++ nameB.chars] := by
      apply groupParts_of_still
      exact (piped_still_shown rfl hs.unpiped hs.unquoted).append
        (nameB.still (plain_but rfl))
    obtain ⟨r, hr, hhead⟩ := readRef?_of_head (c := '|') (by decide) rfl rfl
      (s ++ ['|', ' '] ++ nameB.chars)
    have hgroup : readGroup? (piped s ++ nameB.chars) = some [r] := by
      have hform : piped s ++ nameB.chars = '|' :: (s ++ ['|', ' '] ++ nameB.chars) := by
        simp [piped]
      rw [readGroup?, hgroup, List.mapM_cons, hform, hr]
      rfl
    have hkeys := hlabelled.nodes
    rw [hgraph (takeLabel_of_not_closed hs hopen nameB) hgroup, keys_linkGraph, State.addKey] at hkeys
    split at hkeys
    · exact absurd (congrArg List.length hkeys) (by decide)
    · have hid : r.id = "B" := List.singleton_inj.1 (List.cons.inj hkeys).2
      rw [hid] at hhead
      exact absurd hhead (by decide)
  · intro hclosed
    have hgroup : readGroup? (blanks 1 ++ nameB.chars) = some [Mention.ref ⟨nameB, none⟩] := rfl
    rw [hgraph (takeLabel_of_closed hs hclosed nameB) hgroup]
    exact ⟨keys_linkGraph _ _ _ _ _, edges_linkGraph _ _ _ _ _⟩

/-- Connectors, ampersands, semicolons and brackets that are closed are text. -/
theorem marksInLabel_labelled :
    Labelled (readWith .standard "A -->| x --> y & z; f(w] | B").graph
      "x --> y & z; f(w]".toList := by
  have hs : Lettering " x --> y & z; f(w] ".toList :=
    ⟨⟨'x', by decide, rfl⟩, by decide, by decide, by decide, by decide⟩
  have hsource : "A -->| x --> y & z; f(w] | B" =
      String.ofList ("A -->|".toList ++ " x --> y & z; f(w] ".toList ++ "| B".toList) := by
    decide +kernel
  have htrim : Text.trim " x --> y & z; f(w] ".toList = "x --> y & z; f(w]".toList := by
    decide +kernel
  rw [hsource, ← htrim]
  exact (readWith_labelled_iff .standard hs).2 (by decide)

/-- A bracket that is left open takes the pipes into the identifier of the second node. -/
theorem openBracket_not_labelled :
    ¬ Labelled (readWith .standard "A -->|f(x| B").graph "f(x".toList := by
  intro hlabelled
  have hkeys : (readWith .standard "A -->|f(x| B").graph.nodes.keys = ["A", "|f(x| B"] := by
    decide +kernel
  have hnames := hlabelled.nodes.symm.trans hkeys
  exact absurd hnames (by decide)

end Flowchart.Script
