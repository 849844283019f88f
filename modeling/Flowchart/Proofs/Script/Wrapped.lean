import Flowchart.Proofs.Script.Literal
import Flowchart.Proofs.Source.Shown
import Flowchart.Proofs.Source.WellFormed
import Mathlib.Data.Bool.AllAny

/-! Inside brackets nothing is cut, so a text in brackets stays whole whatever marks it holds. Angle
brackets give a node its shape, too, but no scanner knows them. -/
namespace Flowchart.Script

open Source

structure Wording (s : List Char) : Prop where
  visible : ∃ c ∈ s, Text.isBlank c = false
  legal : ∀ c ∈ s, isOpener c = false ∧ isCloser c = false ∧ c ∉ ['<', '>', '"', '|', '\n']
  uncommented : ¬ ['%', '%'] <:+: s
  unmarked : ¬ classMarker <:+: s

def wrap (w : Wrapper) (s : List Char) : List Char := w.opening ++ s ++ w.closing

section Wording

variable {s : List Char} (hs : Wording s)
include hs

theorem Wording.not_mem {c : Char} (hc : c ∈ ['<', '>', '"', '|', '\n']) : c ∉ s :=
  fun hmem => (hs.legal c hmem).2.2 hc

theorem Wording.exists_cons : ∃ c r, s = c :: r ∧ isShapeOpener c = false := by
  obtain ⟨c, hc, -⟩ := hs.visible
  obtain ⟨c, r, rfl⟩ := List.exists_cons_of_ne_nil (List.ne_nil_of_mem hc)
  have hopener := (hs.legal c List.mem_cons_self).1
  have hangle : c ≠ '<' := ne_of_mem_of_not_mem List.mem_cons_self (hs.not_mem (by decide))
  exact ⟨c, r, rfl, by simp [isShapeOpener, hopener, hangle]⟩

theorem Wording.shown : Shown s := by
  intro c hc
  obtain ⟨hopener, hcloser, -⟩ := hs.legal c hc
  have hquote : c ≠ '"' := ne_of_mem_of_not_mem hc (hs.not_mem (by decide))
  have hpipe : c ≠ '|' := ne_of_mem_of_not_mem hc (hs.not_mem (by decide))
  simp [Nesting.shows, Nesting.neutral, hopener, hcloser, hquote, hpipe]

theorem still_markerScanner_wrap {w : Wrapper} (hw : w ∈ wrappers) :
    markerScanner.Still 0 (wrap w s) := by
  have hwrapper : ∀ w ∈ wrappers, markerScanner.run? 0 w.opening = some 0 ∧ w.closing ≠ [] ∧
      ':' ∉ w.closing ∧ markerScanner.run? 0 w.closing.tail = some 0 := by
    decide
  obtain ⟨hopening, hne, hcolon, htail⟩ := hwrapper w hw
  obtain ⟨l, htext⟩ := run?_markerScanner (Nat.zero_le 2) (s := s) hs.unmarked
  have hclosing : markerScanner.run? l w.closing = some 0 := by
    obtain ⟨c, r, hcons⟩ := List.exists_cons_of_ne_nil hne
    have hc : c ≠ ':' := by
      rintro rfl
      exact hcolon (hcons ▸ List.mem_cons_self)
    have hfine : markerScanner.fine l c = true := by simp [markerScanner, hc]
    have hnext : markerScanner.next l c = 0 := by simp [markerScanner, hc]
    rw [hcons, List.tail_cons] at htail
    rw [hcons, Scanner.run?_cons hfine, hnext, htail]
  exact Scanner.run?_append (Scanner.run?_append hopening htext) hclosing

/-- In every wrapper the text without blanks around it is the text of the node. -/
theorem readRef?_wrap (x : Name) {w : Wrapper} (hw : w ∈ wrappers) (j : Nat) :
    readRef? (x.chars ++ wrap w s ++ blanks j) =
      some ⟨String.ofList x.chars, some (String.ofList (Text.trim s)), some w.shape, []⟩ := by
  have hstill := ((x.still plain_markerScanner).append (still_markerScanner_wrap hs hw)).append
    (still_blanks (rfl : markerScanner.Still 0 [' ']) j)
  have hunquote : Text.unquote s = Text.trim s := unquote_of_not_mem (hs.not_mem (by decide))
  obtain ⟨c, r, rfl, hc⟩ := hs.exists_cons
  have hbase := readBase?_wrapped 0 j x hw hc r
  rw [hunquote] at hbase
  rw [readRef?, splitAt_of_still hstill]
  change (readBase? (blanks 0 ++ (x.chars ++ wrap w (c :: r)) ++ blanks j)).map _ = _
  rw [wrap, hbase]
  rfl

/-- Brackets are left as they were entered, and nothing is shown between them. -/
theorem still_shown_wrap {w : Wrapper} (hw : w ∈ wrappers) (hangle : w.opening ≠ ['<'])
    (p : Char → Bool) : (shownScanner p).Still .neutral (wrap w s) := by
  have hwrapper : ∀ w ∈ wrappers, w.opening ≠ ['<'] →
      w.opening.countP isOpener ≠ 0 ∧
      (shownScanner fun _ => false).run? .neutral w.opening =
        some ⟨false, false, w.opening.countP isOpener⟩ ∧
      (shownScanner fun _ => false).run? ⟨false, false, w.opening.countP isOpener⟩ w.closing =
        some .neutral := by
    decide
  obtain ⟨hdepth, hopening, hclosing⟩ := hwrapper w hw hangle
  have hmono {n k : Nesting} {s : List Char}
      (h : (shownScanner fun _ => false).run? n s = some k) : (shownScanner p).run? n s = some k := by
    refine Scanner.run?_mono (m := shownScanner fun _ => false) rfl (fun n c hc => ?_) h
    have hhidden : n.shows c = false := by simpa [shownScanner] using hc
    simp [shownScanner, hhidden]
  have htext {depth : Nat} (hdepth : depth ≠ 0) :
      (shownScanner p).run? ⟨false, false, depth⟩ s = some ⟨false, false, depth⟩ := by
    refine Scanner.still_of_forall fun c hc => ?_
    obtain ⟨hopener, hcloser, -⟩ := hs.legal c hc
    have hquote : c ≠ '"' := ne_of_mem_of_not_mem hc (hs.not_mem (by decide))
    simp [shownScanner, Nesting.shows, Nesting.next, hopener, hcloser, hquote, hdepth]
  exact Scanner.run?_append (Scanner.run?_append (hmono hopening) (htext hdepth)) (hmono hclosing)

theorem still_pipeScanner_wrap {w : Wrapper} (hw : w ∈ wrappers) :
    pipeScanner.Still {} (wrap w s) := by
  have hwrapper : ∀ w ∈ wrappers,
      pipeScanner.run? {} w.opening = some ⟨false, w.opening.countP (isOpener ·)⟩ ∧
      pipeScanner.run? ⟨false, w.opening.countP (isOpener ·)⟩ w.closing = some {} := by
    decide
  obtain ⟨hopening, hclosing⟩ := hwrapper w hw
  have htext (depth : Nat) : pipeScanner.run? ⟨false, depth⟩ s = some ⟨false, depth⟩ := by
    refine Scanner.still_of_forall fun c hc => ?_
    obtain ⟨hopener, hcloser, -⟩ := hs.legal c hc
    have hquote : c ≠ '"' := ne_of_mem_of_not_mem hc (hs.not_mem (by decide))
    have hpipe : c ≠ '|' := ne_of_mem_of_not_mem hc (hs.not_mem (by decide))
    simp [pipeScanner, PipeNesting.next, PipeNesting.isPipe, hopener, hcloser, hquote, hpipe]
  exact Scanner.run?_append (Scanner.run?_append hopening (htext _)) hclosing

theorem tame_wrap {w : Wrapper} (hw : w ∈ wrappers) (y : Name) : Tame y (wrap w s) := by
  have hwrapper : ∀ w ∈ wrappers, '\n' ∉ w.opening ∧ '\n' ∉ w.closing ∧
      commentScanner.run? {} w.opening = some {} ∧
      ∀ b, commentScanner.run? ⟨false, b⟩ w.closing = some {} := by
    decide
  obtain ⟨hstart, hend, hopening, hclosing⟩ := hwrapper w hw
  obtain ⟨b, htext⟩ := run?_commentScanner (hs.not_mem (by decide))
    (fun h => absurd h Bool.false_ne_true) hs.uncommented
  exact {
    parted := by
      have hform : wrap w s ++ (hopTo y).print = w.opening ++ (s ++ w.closing ++ (hopTo y).print) := by
        simp [wrap]
      exact hform ▸ parted_wrapper hw _
    oneLine := by
      have hfeed : '\n' ∉ s := hs.not_mem (by decide)
      simp [wrap, hstart, hend, hfeed]
    uncommented := Scanner.run?_append (Scanner.run?_append hopening htext) (hclosing b) }

/-- In brackets the line is not cut. -/
theorem kept_bracketed (x y : Name) {w : Wrapper} (hw : w ∈ wrappers) (hangle : w.opening ≠ ['<']) :
    Kept x y (wrap w s) := by
  have hbare : (shownScanner isBare).Still .neutral (x.chars ++ wrap w s) :=
    (x.still plain_bare).append (still_shown_wrap hs hw hangle isBare)
  exact { tame_wrap hs hw y with
    whole := still_shown_wrap hs hw hangle _
    single := still_shown_wrap hs hw hangle _
    unlabelled := still_pipeScanner_wrap hs hw
    split := splitConnectors?_hopTo hbare y }

def angles : Wrapper := ⟨['<'], ['>'], .diamond⟩

theorem shown_angles : Shown (wrap angles s) := by
  intro c hc
  rw [wrap, List.mem_append, List.mem_append] at hc
  rcases hc with (hc | hc) | hc
  · rw [List.mem_singleton.1 hc]
    rfl
  · exact hs.shown c hc
  · rw [List.mem_singleton.1 hc]
    rfl

end Wording

structure Uncut (s : List Char) : Prop where
  semicolon : ';' ∉ s
  ampersand : '&' ∉ s
  markers : ∀ k ∈ connectors, ¬ k.marker <:+: s ++ ['>']

theorem shown_name (x : Name) : Shown x.chars :=
  fun c hc => shows_of_isPlain (isPlain_of_isNameChar (x.legal c hc))

theorem shown_hopTo (y : Name) : Shown (hopTo y).print := by
  have hmark : Shown " --> ".toList := List.all_eq_true.1 (by decide)
  rw [print_hopTo]
  exact hmark.append (shown_name y)

theorem splitConnectors?_of_shown {token : List Char} (htoken : Shown token)
    (hmarkers : ∀ k ∈ connectors, ¬ k.marker <:+: token) (y : Name) :
    splitConnectors? (token ++ (hopTo y).print) = some (token ++ blanks 1, cuts [hopTo y]) := by
  have hpassed : Passed (shownCells token) (cells (hopTo y).print) :=
    print_hopTo y ▸ passed_of_shown hmarkers ("--> ".toList ++ y.chars)
  have hcut := cutConnectors_of_passed hpassed
  have hhop := cutConnectors_hops [hopTo y]
  rw [List.flatMap_singleton] at hhop
  rw [hhop, char_shownCells] at hcut
  rw [splitConnectors?, cells_append_of_shown htoken, hcut]
  rfl

theorem kept_angles (x y : Name) {s : List Char} (hs : Wording s) (huncut : Uncut s) :
    Kept x y (wrap angles s) := by
  have hangles : wrap angles s = '<' :: (s ++ ['>']) := rfl
  have hbut {c : Char} (hc : c ∉ wrap angles s) : ∀ d ∈ wrap angles s, (d != c) = true :=
    fun d hd => bne_iff_ne.2 (ne_of_mem_of_not_mem hd hc)
  have hmarkers : ∀ k ∈ connectors, ¬ k.marker <:+: x.chars ++ wrap angles s := by
    have htable : ∀ k ∈ connectors, '<' ∉ k.marker ∧ k.marker.any (!isNameChar ·) = true := by
      decide
    intro k hk hmarker
    obtain ⟨hangle, hother⟩ := htable k hk
    rcases Text.isInfix_of_append_cons hangle hmarker with hname | htext
    -- a marker is no part of a name
    · obtain ⟨c, hc, hnot⟩ := List.any_eq_true.1 hother
      have hlegal := x.legal c (hname.subset hc)
      exact absurd hlegal (by simpa using hnot)
    · exact huncut.markers k hk htext
  exact { tame_wrap hs (w := angles) (by decide) y with
    whole := still_of_shown (shown_angles hs) (hbut (by simp [hangles, huncut.semicolon]))
    single := still_of_shown (shown_angles hs) (hbut (by simp [hangles, huncut.ampersand]))
    unlabelled := still_pipeScanner_wrap hs (by decide)
    split := splitConnectors?_of_shown ((shown_name x).append (shown_angles hs)) hmarkers y }

/-- The shape of a reference comes from a wrapper around the end of its token. -/
theorem exists_wrap_of_readRef? {part : List Char} {r : NodeRef} {shape : NodeShape}
    (h : readRef? part = some r) (hshape : r.shape = some shape) :
    ∃ base classes, Text.splitAt classMarker part = base :: classes ∧
      ∃ w ∈ wrappers, w.shape = shape ∧ ∃ inside, wrap w inside <:+ Text.trim base := by
  obtain ⟨base, classes, hsplit, id, wrapper, hbase, -, -, hwrapper⟩ := exists_of_readRef? h
  obtain ⟨-, ⟨-, rfl⟩ | ⟨label, shape', rfl, hwrapped, -⟩⟩ := readBase?_eq_some hbase
  · exact absurd (hwrapper.symm.trans hshape) (by simp)
  · obtain rfl : shape' = shape := Option.some.inj (hwrapper.symm.trans hshape)
    obtain ⟨w, hw, inside, hinside, -, hkind⟩ := exists_of_wrapped? hwrapped
    refine ⟨base, classes, hsplit, w, hw, hkind.symm, inside, ?_⟩
    rw [wrap, ← hinside]
    exact List.dropWhile_suffix _

section Diamond

variable {x y : Name} {s : List Char} (hs : Wording s)
include hs

/-- A diamond in a piece of the line is made of its angle brackets and takes the text whole. -/
theorem angles_isInfix {part : List Char}
    (hpart : part <:+: x.chars ++ wrap angles s ++ (hopTo y).print) {r : NodeRef}
    (href : readRef? part = some r) (hshape : r.shape = some .diamond) :
    wrap angles s <:+: part := by
  have hline := ((shown_name x).append (shown_angles hs)).append (shown_hopTo y)
  obtain ⟨base, classes, hsplit, w, hw, hdiamond, inside, hinside⟩ :=
    exists_wrap_of_readRef? href hshape
  have hwrap : wrap w inside <:+: part :=
    (hinside.isInfix.trans (Text.trim_isInfix base)).trans (splitAt_isPrefix hsplit).isInfix
  have htable : ∀ w ∈ wrappers, w.shape = .diamond →
      w = angles ∨ w.opening.any (!Nesting.neutral.shows ·) = true := by
    decide
  rcases htable w hw hdiamond with rfl | hbracket
  · obtain ⟨a, b, hform⟩ := hwrap.trans hpart
    have hform : x.chars ++ '<' :: (s ++ '>' :: (hopTo y).print) =
        a ++ '<' :: (inside ++ '>' :: b) := by
      simpa [wrap, angles] using hform.symm
    have hname : '<' ∉ x.chars := fun h => absurd (x.legal _ h) (by decide)
    have hrest : '<' ∉ s ++ '>' :: (hopTo y).print := by
      have hother : '<' ∉ y.chars := fun h => absurd (y.legal _ h) (by decide)
      have htext : '<' ∉ s := hs.not_mem (by decide)
      simp [print_hopTo, hother, htext]
    obtain ⟨-, -, htail⟩ := (List.append_cons_inj_of_notMem hname hrest).1 hform
    -- the first closing angle bracket of the line is the one that ends the text
    have htext : s ++ ['>'] <+: s ++ '>' :: (hopTo y).print := ⟨(hopTo y).print, by simp⟩
    have hfound : inside ++ ['>'] <+: s ++ '>' :: (hopTo y).print := ⟨b, by simp [htail]⟩
    have hstart : s ++ ['>'] <+: inside ++ ['>'] := by
      rcases List.prefix_or_prefix_of_prefix htext hfound with h | h
      · exact h
      rcases List.prefix_concat_iff.1 h with h | h
      · exact h ▸ List.prefix_rfl
      · exact absurd (h.subset (List.mem_append_right inside List.mem_cons_self))
          (hs.not_mem (by decide))
    have hwhole : wrap angles s <+: wrap angles inside := List.cons_prefix_cons.2 ⟨rfl, hstart⟩
    exact hwhole.isInfix.trans hwrap
  · obtain ⟨c, hc, hhidden⟩ := List.any_eq_true.1 hbracket
    rw [Bool.not_eq_true'] at hhidden
    have hmem : c ∈ wrap w inside := List.mem_append_left _ (List.mem_append_left _ hc)
    exact absurd (hline c ((hwrap.trans hpart).subset hmem)) (by simp [hhidden])

/-- The whole line is no node with a shape, since it ends in a name. -/
theorem shape_of_line {r : NodeRef}
    (href : readRef? (x.chars ++ wrap angles s ++ (hopTo y).print) = some r) : r.shape = none := by
  have hspoken := (tame_wrap hs (w := angles) (by decide) y).spoken x
  have hstill := ((x.still plain_markerScanner).append
    (still_markerScanner_wrap hs (w := angles) (by decide))).append
    (hopTo_still plain_markerScanner rfl y)
  cases hshape : r.shape with
  | none => rfl
  | some shape =>
    obtain ⟨base, classes, hsplit, w, hw, -, inside, a, hinside⟩ := exists_wrap_of_readRef? href hshape
    rw [splitAt_of_still hstill] at hsplit
    obtain ⟨rfl, -⟩ := List.cons.inj hsplit
    rw [hspoken.snug.trim] at hinside
    -- the last character would be that of a wrapper
    have hclosing : ∀ w ∈ wrappers, w.closing.getLast?.any (!isNameChar ·) = true := by decide
    obtain ⟨c, hc, hnot⟩ := (Option.any_eq_true _ _).1 (hclosing w hw)
    have hlast : y.chars.getLast? = some c := by
      have hline : x.chars ++ wrap angles s ++ (hopTo y).print =
          x.chars ++ wrap angles s ++ " --> ".toList ++ y.chars := by
        simp [print_hopTo]
      have hends := congrArg List.getLast? (hinside.trans hline)
      rw [wrap, ← List.append_assoc, List.getLast?_append, hc,
        List.getLast?_append_of_ne_nil _ y.nonempty] at hends
      exact hends.symm
    have hlegal := y.legal c (List.mem_of_getLast? hlast)
    exact absurd hlegal (by simpa using hnot)

/-- Where the line makes a diamond, the text is not cut. -/
theorem uncut_of_diamond {t : Theme} {id : String} {n : Node}
    (hn : (readWith t (String.ofList (x.chars ++ wrap angles s ++ (hopTo y).print))).graph.node? id =
      some n) (hshape : n.shape = .diamond) : Uncut s := by
  have hspoken := (tame_wrap hs (w := angles) (by decide) y).spoken x
  have hline := ((shown_name x).append (shown_angles hs)).append (shown_hopTo y)
  have hangles : wrap angles s = '<' :: (s ++ ['>']) := rfl
  -- the node is as a reference of some statement made it, and that one has the shape
  rw [graph_readWith, String.toList_ofList, hspoken.statementsOf] at hn
  obtain ⟨m, hm, hsame⟩ := State.exists_entry_of_finish hn
  obtain ⟨before, st, after, hsplit, -, r, hr, hfresh⟩ := State.entry_run hm
  obtain ⟨rfl, rfl⟩ := Prod.mk.inj hfresh
  have hdiamond : r.shape = some .diamond := by
    have hshape' : r.shape.getD .rectangle = .diamond := (congrArg Node.shape hsame).trans hshape
    cases hr : r.shape with
    | none =>
      rw [hr] at hshape'
      exact absurd hshape' (by decide)
    | some shape =>
      rw [hr] at hshape'
      exact congrArg some hshape'
  have hst : st ∈ (statements _).map Statement.read :=
    hsplit ▸ List.mem_append_right before List.mem_cons_self
  obtain ⟨u, hu, rfl⟩ := List.mem_map.1 hst
  obtain ⟨hpiece, hsemicolon⟩ := mem_statements_of_shown hline hu
  rcases mem_nodeRefs_read hr with ⟨c, hchain, hrefs⟩ | hnode | ⟨id, -, rfl⟩
  · obtain ⟨token, links, htokens, tok, htok, part, hpart, href⟩ :=
      exists_part_of_mem_refs hchain hrefs
    obtain ⟨hinside, hand, hmarkers⟩ := part_of_shown (hline.mono hpiece) htokens htok hpart
    have hwhole := angles_isInfix hs (hinside.trans hpiece) href hdiamond
    have htext : s ++ ['>'] <:+: part := (List.suffix_cons '<' _).isInfix.trans hwhole
    have hmem {c : Char} (hc : c ∈ s) : c ∈ part := htext.subset (List.mem_append_left _ hc)
    exact {
      semicolon := fun hc => hsemicolon (hinside.subset (hmem hc))
      ampersand := fun hc => hand (hmem hc)
      markers := fun k hk h => hmarkers k hk (h.trans htext) }
  · -- without semicolons the statement is the whole line, and that is no diamond
    have href := (Option.filter_eq_some_iff.1 hnode).1
    have hwhole := angles_isInfix hs hpiece href hdiamond
    have hfree : ';' ∉ x.chars ++ wrap angles s ++ (hopTo y).print := by
      have hname (x : Name) : ';' ∉ x.chars := fun h => absurd (x.legal _ h) (by decide)
      have htext : ';' ∉ wrap angles s := fun h => hsemicolon (hwhole.subset h)
      simp [print_hopTo, hname, htext]
    have hone := statements_of_run? (still_of_shown (p := (· != ';')) hline fun c hc =>
      bne_iff_ne.2 (ne_of_mem_of_not_mem hc hfree)) hspoken.snug
    rw [hone, List.mem_singleton] at hu
    rw [hu] at href
    rw [shape_of_line hs href] at hdiamond
    exact absurd hdiamond (by simp)
  · exact absurd hdiamond (by simp)

end Diamond

/-- Under every theme, a text in brackets is the text of the node, but for blanks around it, whatever
it holds; in angle brackets it is so if and only if there is nothing in it that a line is cut at. -/
theorem readWith_wrapped_iff (t : Theme) {w : Wrapper} (hw : w ∈ wrappers) {s : List Char}
    (hs : Wording s) :
    Literal (readWith t (String.ofList ('A' :: wrap w s ++ " --> B".toList))).graph (Text.trim s)
      w.shape ↔ (w.opening = ['<'] → Uncut s) := by
  have hline : 'A' :: wrap w s ++ " --> B".toList =
      nameA.chars ++ wrap w s ++ (hopTo nameB).print := rfl
  have hangles : ∀ w ∈ wrappers, w.opening = ['<'] → w = angles := by decide
  rw [hline]
  constructor
  · intro hliteral hangle
    obtain rfl := hangles w hw hangle
    obtain ⟨n, hn, -, hshape⟩ := hliteral.node
    exact uncut_of_diamond hs hn hshape
  · intro h
    have hkept : Kept nameA nameB (wrap w s) := by
      by_cases hangle : w.opening = ['<']
      · exact hangles w hw hangle ▸ kept_angles nameA nameB hs (h hangle)
      · exact kept_bracketed hs nameA nameB hw hangle
    have hsaid := Kept.says hkept (readRef?_wrap hs nameA hw 1)
    rw [hsaid.readWith t]
    exact ⟨keys_arrowGraph _ _ _, edges_arrowGraph _ _ _, _, node?_arrowGraph _ _ _, rfl, rfl⟩

/-- Markers, ampersands and semicolons in brackets are text. -/
theorem marksInBrackets_literal :
    Literal (readWith .standard "A[( x --- y & z; w )] --> B").graph "x --- y & z; w".toList
      .roundRect := by
  have hw : (⟨['[', '('], [')', ']'], .roundRect⟩ : Wrapper) ∈ wrappers := by decide
  have hs : Wording " x --- y & z; w ".toList :=
    ⟨⟨'x', by decide, rfl⟩, List.all_iff_forall_prop.1 (by decide), by decide, by decide⟩
  have hsource : "A[( x --- y & z; w )] --> B" = String.ofList
      ('A' :: wrap ⟨['[', '('], [')', ']'], .roundRect⟩ " x --- y & z; w ".toList ++
        " --> B".toList) := by
    decide +kernel
  have htrim : Text.trim " x --- y & z; w ".toList = "x --- y & z; w".toList := by
    decide +kernel
  rw [hsource, ← htrim]
  exact (readWith_wrapped_iff .standard hw hs).2 fun h => absurd h (by decide)

/-- An ampersand in angle brackets makes two nodes of one. -/
theorem ampersandInAngles_not_literal :
    ¬ Literal (readWith .standard "A<Rock & Roll> --> B").graph "Rock & Roll".toList .diamond := by
  intro hliteral
  have hkeys : (readWith .standard "A<Rock & Roll> --> B").graph.nodes.keys =
      ["A<Rock", "Roll>", "B"] := by
    decide +kernel
  have hnames := hliteral.nodes.symm.trans hkeys
  exact absurd hnames (by decide)

end Flowchart.Script
