import Flowchart.Proofs.Script.Still
import Flowchart.Proofs.Text.Marker

namespace Flowchart.Script

open Source

def blanks (i : Nat) : List Char := List.replicate i ' '

theorem blanks_append (i j : Nat) : blanks i ++ blanks j = blanks (i + j) :=
  List.replicate_append_replicate

theorem isBlank_of_mem_blanks {i : Nat} : ∀ c ∈ blanks i, Text.isBlank c = true := by
  intro c hc
  rw [List.eq_of_mem_replicate hc]
  rfl

theorem still_blanks {σ : Type} {m : Scanner σ} {n : σ} (h : m.Still n [' ']) (i : Nat) :
    m.Still n (blanks i) := by
  induction i with
  | zero => exact Scanner.still_nil
  | succ i ih => exact h.append ih

theorem toNat_of_isNameChar {c : Char} (h : isNameChar c = true) :
    c.toNat = 95 ∨ (48 ≤ c.toNat ∧ c.toNat ≤ 57) ∨ (65 ≤ c.toNat ∧ c.toNat ≤ 90) ∨
      (97 ≤ c.toNat ∧ c.toNat ≤ 122) := by
  have hcode : ((decide (c.val ≥ 65 ∧ c.val ≤ 90) ||
      (decide (c.val ≥ 97) && decide (c.val ≤ 122)) ||
      (decide (c.val ≥ 48) && decide (c.val ≤ 57))) || c == '_') = true := h
  simp only [Bool.or_eq_true, Bool.and_eq_true, decide_eq_true_eq, beq_iff_eq, ge_iff_le,
    UInt32.le_iff_toNat_le] at hcode
  rcases hcode with ((hupper | hlower) | hdigit) | rfl
  · exact .inr (.inr (.inl hupper))
  · exact .inr (.inr (.inr hlower))
  · exact .inr (.inl hdigit)
  · exact .inl rfl

theorem isBlank_of_isNameChar {c : Char} (h : isNameChar c = true) : Text.isBlank c = false := by
  have hcode := toNat_of_isNameChar h
  rw [← Bool.not_eq_true]
  simp only [Text.isBlank, Bool.or_eq_true, Bool.and_eq_true, decide_eq_true_eq, beq_iff_eq]
  omega

theorem Name.snug (x : Name) : Text.Snug x.chars :=
  Text.snug_of_forall x.nonempty fun c hc => isBlank_of_isNameChar (x.legal c hc)

theorem closes_closing : ∀ w ∈ wrappers, Text.Closes w.closing := by
  have hlast : ∀ w ∈ wrappers, w.closing.getLast?.any (!Text.isBlank ·) = true := by decide
  intro w hw
  obtain ⟨c, hc, hblank⟩ := (Option.any_eq_true _ _).1 (hlast w hw)
  obtain ⟨r, hr⟩ := List.getLast?_eq_some_iff.1 hc
  exact ⟨r, c, hr, by simpa using hblank⟩

theorem Dress.closes (d : Dress) : Text.Closes d.print :=
  ((closes_closing d.wrapper d.mem_wrappers).cons '"').append _

theorem Mention.snug (x : Mention) : Text.Snug x.print := by
  refine ⟨x.name.snug.leads.append _, ?_⟩
  unfold Mention.print
  cases x.dress with
  | none => simpa using x.name.snug.closes
  | some d => exact d.closes.append _

/-- No marker begins in a text without colons, so it stays in front of what follows it. -/
theorem splitAt_append {s : List Char} (hs : ':' ∉ s) (t : List Char) :
    ∃ piece rest, Text.splitAt classMarker t = piece :: rest ∧
      Text.splitAt classMarker (s ++ t) = (s ++ piece) :: rest := by
  rw [Text.splitAt_eq_splitAtAny, Text.splitAt_eq_splitAtAny]
  induction s with
  | nil =>
    obtain ⟨piece, rest, ht, -⟩ := Text.exists_first_piece [classMarker] 0 t
    exact ⟨piece, rest, ht, ht⟩
  | cons c s ih =>
    obtain ⟨hc, hs⟩ := not_or.1 (mt List.mem_cons.2 hs)
    obtain ⟨piece, rest, ht, hst⟩ := ih hs
    have hnone : Text.markerAt? [classMarker] (c :: (s ++ t)) = none := by
      simp [Text.markerAt?_eq_none_iff, classMarker, hc]
    refine ⟨piece, rest, ht, ?_⟩
    rw [List.cons_append, Text.splitAtAny_cons hnone, hst]
    rfl

/-- The first piece ends where the first marker begins. -/
theorem splitAt_of_infix {s : List Char} (h : classMarker <:+: s) (t : List Char) :
    ∃ piece rest, Text.splitAt classMarker (s ++ t) = piece :: rest ∧ piece <+: s := by
  obtain ⟨piece, rest, hcut, hpiece⟩ := Text.exists_first_piece [classMarker] 0 (s ++ t)
  have hfree : ¬ classMarker <:+: piece :=
    Text.not_infix_of_mem_piecesAtAny (by simp [classMarker]) List.mem_cons_self
      (hcut ▸ List.mem_cons_self)
  rw [Text.splitAt_eq_splitAtAny]
  refine ⟨piece, rest, hcut, ?_⟩
  -- a piece that went on behind the text would have the marker in it
  have hor := List.prefix_or_prefix_of_prefix hpiece (List.prefix_append s t)
  exact hor.resolve_right fun hs => hfree (h.trans hs.isInfix)

/-- The first piece begins the text. -/
theorem splitAt_isPrefix {s piece : List Char} {rest : List (List Char)}
    (h : Text.splitAt classMarker s = piece :: rest) : piece <+: s := by
  obtain ⟨first, others, hcut, hfirst⟩ := Text.exists_first_piece [classMarker] 0 s
  rw [Text.splitAt_eq_splitAtAny, Text.splitAtAny, hcut] at h
  obtain ⟨rfl, -⟩ := List.cons.inj h
  exact hfirst

def Mention.ref (x : Mention) : NodeRef where
  id := x.id
  label := x.dress.map fun d => String.ofList d.text.chars
  shape := x.dress.map fun d => d.wrapper.shape
  classes := []

theorem unquote_quoted (s : List Char) : Text.unquote ('"' :: s ++ ['"']) = s := by
  have hsnug : Text.Snug ('"' :: s ++ ['"']) :=
    ⟨⟨'"', s ++ ['"'], rfl, rfl⟩, ⟨'"' :: s, '"', rfl, rfl⟩⟩
  rw [Text.unquote, hsnug.trim]
  simp

theorem inside?_enclosed (w : Wrapper) (s : List Char) :
    w.inside? (w.opening ++ s ++ w.closing) = some s := by
  have hprefix : w.opening.isPrefixOf (w.opening ++ s ++ w.closing) = true := by
    rw [List.append_assoc]
    exact List.isPrefixOf_iff_prefix.2 (List.prefix_append _ _)
  have hsuffix : w.closing.isSuffixOf (w.opening ++ s ++ w.closing) = true :=
    List.isSuffixOf_iff_suffix.2 (List.suffix_append _ _)
  have hlength : (w.opening ++ s ++ w.closing).length - w.opening.length - w.closing.length =
      s.length := by
    simp only [List.length_append]
    omega
  rw [Wrapper.inside?, if_pos ⟨by simp only [List.length_append]; omega, hprefix, hsuffix⟩, hlength]
  simp

theorem inside?_eq_none {w : Wrapper} {s : List Char} (h : w.opening.isPrefixOf s = false) :
    w.inside? s = none := by
  rw [Wrapper.inside?, if_neg]
  simp [h]

/-- No wrapper that comes earlier in the table begins as one does with other text in it. -/
theorem isPrefixOf_earlier {w : Wrapper} (hw : w ∈ wrappers) {c : Char}
    (hc : isShapeOpener c = false) (r : List Char) :
    ∀ v ∈ wrappers.takeWhile (· != w), v.opening.isPrefixOf (w.opening ++ c :: r) = false := by
  have htable : ∀ w ∈ wrappers, ∀ v ∈ wrappers.takeWhile (· != w),
      v.opening.length ≤ w.opening.length + 1 ∧ ¬ v.opening <+: w.opening ∧
        v.opening.all isShapeOpener = true := by
    decide
  intro v hv
  obtain ⟨hlength, hnot, hopeners⟩ := htable w hw v hv
  have htext : w.opening ++ [c] <+: w.opening ++ c :: r := ⟨r, by simp⟩
  rw [← Bool.not_eq_true, List.isPrefixOf_iff_prefix]
  intro hstart
  have hshort := List.prefix_of_prefix_length_le hstart htext (by simpa using hlength)
  rcases List.prefix_concat_iff.1 hshort with heq | hstart
  -- the character would be one that opens
  · rw [heq, List.all_append, List.all_cons, hc] at hopeners
    exact absurd hopeners (by simp)
  · exact hnot hstart

/-- The wrapper around a text is the first of the table that fits, whatever the text goes on with. -/
theorem wrapped?_enclosed {w : Wrapper} (hw : w ∈ wrappers) {c : Char}
    (hc : isShapeOpener c = false) (r : List Char) :
    wrapped? (w.opening ++ c :: r ++ w.closing) = some (Text.unquote (c :: r), w.shape) := by
  -- the table falls into what comes before the wrapper, where nothing fits, and what begins with it
  have hfirst : ∀ w ∈ wrappers, (wrappers.dropWhile (· != w)).head? = some w := by decide
  obtain ⟨after, hafter⟩ := List.head?_eq_some_iff.1 (hfirst w hw)
  rw [wrapped?, List.findSome?_eq_some_iff]
  refine ⟨wrappers.takeWhile (· != w), w, after, ?_, ?_, ?_⟩
  · rw [← hafter, List.takeWhile_append_dropWhile]
  · rw [inside?_enclosed, Option.map_some]
  · intro v hv
    have hform : w.opening ++ c :: r ++ w.closing = w.opening ++ c :: (r ++ w.closing) := by simp
    rw [hform, inside?_eq_none (isPrefixOf_earlier hw hc _ v hv), Option.map_none]

theorem isShapeOpener_of_isNameChar {c : Char} (h : isNameChar c = true) :
    isShapeOpener c = false := by
  have hne {d : Char} (hd : isPlain d = false) : c ≠ d := ne_of_isPlain (isPlain_of_isNameChar h) hd
  simp [isShapeOpener, isOpener, hne (d := '[') rfl, hne (d := '(') rfl, hne (d := '\x7b') rfl,
    hne (d := '<') rfl]

theorem exists_opener {w : Wrapper} (hw : w ∈ wrappers) (t : List Char) :
    ∃ c r, w.opening ++ t = c :: r ∧ isShapeOpener c = true := by
  have hhead : ∀ w ∈ wrappers, w.opening.head?.any isShapeOpener = true := by decide
  obtain ⟨c, hc, hopener⟩ := (Option.any_eq_true _ _).1 (hhead w hw)
  obtain ⟨r, hr⟩ := List.head?_eq_some_iff.1 hc
  exact ⟨c, r ++ t, by simp [hr], hopener⟩

/-- A name is read up to the wrapper after it. -/
theorem readBase?_wrapped (i j : Nat) (x : Name) {w : Wrapper} (hw : w ∈ wrappers) {c : Char}
    (hc : isShapeOpener c = false) (r : List Char) :
    readBase? (blanks i ++ (x.chars ++ (w.opening ++ c :: r ++ w.closing)) ++ blanks j) =
      some (x.chars, some (Text.unquote (c :: r), w.shape)) := by
  have hname : ∀ c ∈ x.chars, (!isShapeOpener c) = true := fun c hc => by
    simp [isShapeOpener_of_isNameChar (x.legal c hc)]
  obtain ⟨a, rest, hfirst, ha⟩ := exists_opener hw (c :: r ++ w.closing)
  rw [← List.append_assoc] at hfirst
  have hsnug : Text.Snug (x.chars ++ (w.opening ++ c :: r ++ w.closing)) :=
    ⟨x.snug.leads.append _, ((closes_closing w hw).append _).append _⟩
  have htake : (x.chars ++ (w.opening ++ c :: r ++ w.closing)).takeWhile (!isShapeOpener ·) =
      x.chars := by
    rw [List.takeWhile_append_of_pos hname, hfirst]
    simp [ha]
  have hdrop : (x.chars ++ (w.opening ++ c :: r ++ w.closing)).dropWhile (!isShapeOpener ·) =
      w.opening ++ c :: r ++ w.closing := by
    rw [List.dropWhile_append_of_pos hname, hfirst]
    simp [ha]
  have htrim := Text.trim_pad (isBlank_of_mem_blanks (i := i)) (isBlank_of_mem_blanks (i := j)) hsnug
  have hempty : (x.chars ++ (w.opening ++ c :: r ++ w.closing)).isEmpty = false := by simp
  have hid : x.chars.isEmpty = false := by simpa using x.nonempty
  simp only [readBase?, htrim, hempty, hdrop, htake, wrapped?_enclosed hw hc, x.snug.trim, hid,
    Bool.false_eq_true, if_false]

theorem readBase?_bare (i j : Nat) (x : Name) :
    readBase? (blanks i ++ x.chars ++ blanks j) = some (x.chars, none) := by
  have hname : ∀ c ∈ x.chars, (!isShapeOpener c) = true := fun c hc => by
    simp [isShapeOpener_of_isNameChar (x.legal c hc)]
  have htrim := Text.trim_pad (isBlank_of_mem_blanks (i := i)) (isBlank_of_mem_blanks (i := j)) x.snug
  have hempty : x.chars.isEmpty = false := by simpa using x.nonempty
  have hdrop : x.chars.dropWhile (!isShapeOpener ·) = [] := List.dropWhile_eq_nil_iff.2 hname
  have hnone : wrapped? [] = none := rfl
  simp only [readBase?, htrim, hempty, hdrop, hnone, Bool.false_eq_true, if_false]

theorem readBase?_print (i j : Nat) (x : Mention) :
    readBase? (blanks i ++ x.print ++ blanks j) =
      some (x.name.chars, x.dress.map fun d => (d.text.chars, d.wrapper.shape)) := by
  obtain ⟨name, dress⟩ := x
  cases dress with
  | none => simpa [Mention.print] using readBase?_bare i j name
  | some d =>
    have hread := readBase?_wrapped i j name d.mem_wrappers (c := '"') rfl (d.text.chars ++ ['"'])
    rw [← List.cons_append, unquote_quoted] at hread
    simpa [Mention.print, Dress.print] using hread

theorem readRef?_print (i j : Nat) (x : Mention) :
    readRef? (blanks i ++ x.print ++ blanks j) = some x.ref := by
  have hblank : markerScanner.Still 0 [' '] := rfl
  have hprint := x.still plain_markerScanner Dress.still_markerScanner
  have hstill := ((still_blanks hblank i).append hprint).append (still_blanks hblank j)
  rw [readRef?, splitAt_of_still hstill]
  simp only [readBase?_print, Option.map_some, Option.map_map]
  rfl

theorem still_and_blank : (shownScanner (· != '&')).Still .neutral [' '] := rfl

/-- Nodes with ampersands between them are read one after the other. -/
theorem readGroup?_print (i j : Nat) (g : Group) :
    readGroup? (blanks i ++ g.print ++ blanks j) = some (g.mentions.map Mention.ref) := by
  obtain ⟨first, others⟩ := g
  unfold Group.print Group.mentions
  dsimp only
  -- a cut at an ampersand leaves one blank before it and one after it, so `i` changes
  induction others generalizing i first with
  | nil =>
    have hstill := ((still_blanks still_and_blank i).append (first.still_but rfl rfl)).append
      (still_blanks still_and_blank j)
    rw [List.flatMap_nil, List.append_nil, readGroup?, groupParts_of_still hstill, List.mapM_cons,
      readRef?_print]
    rfl
  | cons x rest ih =>
    have hstill := ((still_blanks still_and_blank i).append (first.still_but rfl rfl)).append
      (still_blanks still_and_blank 1)
    have hcut : blanks i ++ (first.print ++
        ((x :: rest).flatMap fun y => [' ', '&', ' '] ++ y.print)) ++ blanks j =
        (blanks i ++ first.print ++ blanks 1) ++ '&' :: (blanks 1 ++ (x.print ++
          rest.flatMap fun y => [' ', '&', ' '] ++ y.print) ++ blanks j) := by
      simp [blanks]
    have ih := ih 1 x
    rw [readGroup?] at ih
    rw [hcut, readGroup?, groupParts_append_cons hstill, List.mapM_cons, readRef?_print, ih]
    rfl

def gap : List Hop → List Char
  | [] => []
  | _ :: _ => blanks 1

theorem gap_eq_blanks (hops : List Hop) : ∃ j, gap hops = blanks j := by
  cases hops with
  | nil => exact ⟨0, rfl⟩
  | cons h rest => exact ⟨1, rfl⟩

def Hop.label (h : Hop) : List Char := h.caption.elim [] Caption.print

def cuts : List Hop → List (Connector × List Char)
  | [] => []
  | h :: rest => (h.connector, blanks 1 ++ h.label ++ h.group.print ++ gap rest) :: cuts rest

theorem Mention.still_bare (x : Mention) : (shownScanner isBare).Still .neutral x.print :=
  x.still_shown fun _ hc => isBare_of_shown hc

theorem Group.still_bare (g : Group) : (shownScanner isBare).Still .neutral g.print :=
  g.still Mention.still_bare rfl

theorem Hop.still_label {p : Char → Bool} (hp : p ' ' = true) (h : Hop) :
    (shownScanner p).Still .neutral h.label := by
  unfold Hop.label
  cases h.caption with
  | none => exact Scanner.still_nil
  | some c => exact c.still_shown hp

/-- Hops are cut at their connectors only. -/
theorem cutConnectors_hops (hops : List Hop) :
    cutConnectors 0 (cells (hops.flatMap Hop.print)) = (gap hops, cuts hops) := by
  induction hops with
  | nil => rfl
  | cons h rest ih =>
    have hblank : (shownScanner isBare).Still .neutral (blanks 1) := rfl
    have htoken : (shownScanner isBare).Still .neutral (blanks 1 ++ h.label ++ h.group.print) :=
      (hblank.append (h.still_label rfl)).append h.group.still_bare
    have hprint : (h :: rest).flatMap Hop.print = blanks 1 ++ (h.connector.marker ++
        (blanks 1 ++ h.label ++ h.group.print ++ rest.flatMap Hop.print)) := by
      simp [Hop.print, Hop.label, blanks]
    -- the blank that ends the marker belongs to the token after it
    have htext : blanks 1 ++ h.label ++ h.group.print ++ rest.flatMap Hop.print =
        ' ' :: (h.label ++ h.group.print ++ rest.flatMap Hop.print) := rfl
    rw [hprint, cutConnectors_cells hblank, htext, cutConnectors_marker h.mem_connectors, ← htext,
      cutConnectors_cells htoken, ih]
    rfl

theorem splitConnectors?_print (p : Path) :
    splitConnectors? p.print = some (p.start.print ++ gap (p.hop :: p.hops), cuts (p.hop :: p.hops)) := by
  have hcut := cutConnectors_cells p.start.still_bare ((p.hop :: p.hops).flatMap Hop.print)
  rw [cutConnectors_hops] at hcut
  rw [splitConnectors?, Path.print, hcut]
  rfl

theorem takeLabel_group (i : Nat) (g : Group) (hops : List Hop) :
    takeLabel (blanks i ++ g.print ++ gap hops) = (none, blanks i ++ g.print ++ gap hops) := by
  have hblank : pipeScanner.Still {} [' '] := rfl
  obtain ⟨j, hj⟩ := gap_eq_blanks hops
  have hstill := ((still_blanks hblank i).append g.still_pipeScanner).append (still_blanks hblank j)
  rw [hj, takeLabel, cutAtPipe?_of_run? hstill]

/-- Without quotes in a text, taking quotes away only trims it. -/
theorem unquote_of_not_mem {s : List Char} (hquote : '"' ∉ s) : Text.unquote s = Text.trim s := by
  unfold Text.unquote
  dsimp only
  split
  · next h => exact absurd (Text.mem_of_mem_trim (h ▸ List.mem_cons_self)) hquote
  · rfl

/-- The label is the text between the pipes without its outer blanks, when the second pipe counts. -/
theorem takeLabel_piped (i : Nat) {s : List Char} {n : PipeNesting} (hquote : '"' ∉ s)
    (hvisible : ∃ c ∈ s, Text.isBlank c = false) (hrun : pipeScanner.run? {} s = some n)
    (hn : n.isPipe '|' = true) (rest : List Char) :
    takeLabel (blanks i ++ piped s ++ rest) = (some (Text.trim s), blanks (i + 1) ++ rest) := by
  have hblank : pipeScanner.Still {} [' '] := rfl
  have htext : blanks i ++ piped s ++ rest =
      blanks i ++ '|' :: (s ++ '|' :: (blanks 1 ++ rest)) := by
    simp [piped, blanks]
  have hempty : (Text.trim s).isEmpty = false := by simpa using Text.trim_ne_nil hvisible
  rw [htext, takeLabel, cutAtPipe?_append (still_blanks hblank i) rfl]
  simp only [cutAtPipe?_append hrun hn, unquote_of_not_mem hquote, hempty, Bool.false_eq_true,
    if_false, ← List.append_assoc, blanks_append]

/-- What is left of the token without the caption is the group. -/
theorem takeLabel_caption (c : Caption) (g : Group) (hops : List Hop) :
    takeLabel (blanks 1 ++ c.print ++ g.print ++ gap hops) =
      (some (Text.trim c.chars), blanks 2 ++ g.print ++ gap hops) := by
  have hquote : '"' ∉ c.chars := fun h => (c.legal _ h).2.1 rfl
  have htake := takeLabel_piped 1 hquote c.visible c.run?_pipeScanner rfl (g.print ++ gap hops)
  rwa [← List.append_assoc, ← List.append_assoc] at htake

def Hop.link (h : Hop) : Link where
  connector := h.connector
  label := h.caption.map fun c => String.ofList (Text.trim c.chars)
  group := h.group.mentions.map Mention.ref

theorem readLinks?_cuts (hops : List Hop) : readLinks? none (cuts hops) = some (hops.map Hop.link) := by
  induction hops with
  | nil => rfl
  | cons h rest ih =>
    obtain ⟨j, hj⟩ := gap_eq_blanks rest
    -- a label leaves one more blank in front of the group
    have htake : ∃ i, takeLabel (blanks 1 ++ h.label ++ h.group.print ++ gap rest) =
        (h.caption.map fun c => Text.trim c.chars, blanks i ++ h.group.print ++ blanks j) := by
      unfold Hop.label
      cases h.caption with
      | none => exact ⟨1, hj ▸ takeLabel_group 1 h.group rest⟩
      | some c => exact ⟨2, hj ▸ takeLabel_caption c h.group rest⟩
    obtain ⟨i, htake⟩ := htake
    rw [cuts, readLinks?, htake]
    simp only [readGroup?_print, ih, Option.bind_eq_bind, Option.bind_some, Option.pure_def]
    simp [Hop.link, Function.comp_def]

def Path.chain (p : Path) : Chain :=
  ⟨p.start.mentions.map Mention.ref, (p.hop :: p.hops).map Hop.link⟩

theorem readChain?_print (p : Path) : readChain? p.print = some p.chain := by
  obtain ⟨j, hj⟩ := gap_eq_blanks (p.hop :: p.hops)
  have htake := takeLabel_group 0 p.start (p.hop :: p.hops)
  have hgroup := readGroup?_print 0 j p.start
  rw [readChain?, splitConnectors?_print]
  have htoken : p.start.print ++ gap (p.hop :: p.hops) =
      blanks 0 ++ p.start.print ++ gap (p.hop :: p.hops) := rfl
  simp only [Option.bind_eq_bind, Option.bind_some]
  rw [htoken, htake, hj, hgroup, readLinks?_cuts]
  rfl

theorem readChain?_mention (x : Mention) : readChain? x.print = none := by
  rw [readChain?, splitConnectors?_of_still x.still_bare]
  rfl

theorem readNode?_print (x : Mention) : readNode? x.print = some x.ref := by
  have hread : readRef? x.print = some x.ref := by simpa [blanks] using readRef?_print 0 0 x
  have hid : x.ref.id.toList.any Text.isBlank = false := by
    rw [List.any_eq_false]
    intro c hc
    have hmem : c ∈ x.name.chars := by simpa [Mention.ref, Mention.id] using hc
    simp [isBlank_of_isNameChar (x.name.legal c hmem)]
  rw [readNode?, hread, Option.filter_some, hid]
  rfl

end Flowchart.Script
