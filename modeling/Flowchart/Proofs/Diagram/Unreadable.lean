import Flowchart.Proofs.Diagram.Directive
import Flowchart.Proofs.Source.Payload
import Flowchart.Proofs.Source.Row

namespace Flowchart.Source

open Text (isBlank rows ofRows trim)

def braced (s : List Char) : List Char := '\x7b' :: (s ++ ['\x7d'])

def initLine (object : List Char) : List Char :=
  "%%\x7binit: ".toList ++ (object ++ "\x7d%%".toList)

/-- The brace in front of the end of the directive closes the object, whatever stands before it. -/
theorem payloadBody?_braced (s : List Char) :
    payloadBody? ((s ++ ['\x7d']) ++ "\x7d%%".toList) = some (s ++ ['\x7d']) := by
  induction s with
  | nil => rfl
  | cons c s ih => rw [List.cons_append, List.cons_append, payloadBody?, ih]

theorem snug_initLine (object : List Char) : Text.Snug (initLine object) := by
  constructor
  · have hleads : Text.Leads "%%\x7binit: ".toList := ⟨'%', _, rfl, rfl⟩
    exact hleads.append _
  · have hcloses : Text.Closes "\x7d%%".toList := ⟨"\x7d%".toList, '%', rfl, rfl⟩
    exact (hcloses.append object).append _

theorem initPayload?_initLine (s : List Char) :
    initPayload? (trim (initLine (braced s))) = some (braced s) := by
  have hcut : initLine (braced s) =
      "%%\x7b".toList ++ ([] ++ ("init".toList ++ ([] ++ (":".toList ++
        ([' '] ++ '\x7b' :: ((s ++ ['\x7d']) ++ "\x7d%%".toList)))))) := rfl
  have hinit : Text.Leads "init".toList := ⟨'i', _, rfl, rfl⟩
  have hcolon : Text.Leads ":".toList := ⟨':', _, rfl, rfl⟩
  have hnone : ∀ c ∈ ([] : List Char), isBlank c = true := List.forall_mem_nil _
  have hblank : ∀ c ∈ [' '], isBlank c = true := List.forall_mem_singleton.2 rfl
  rw [(snug_initLine _).trim, hcut, initPayload?]
  simp only [Option.bind_eq_bind]
  rw [afterBlanks?_append hnone (hinit.append _), Option.bind_some,
    afterBlanks?_append hnone (hcolon.append _), Option.bind_some,
    afterBlanks?_append hblank ⟨'\x7b', _, rfl, rfl⟩, Option.bind_some]
  exact congrArg (Option.map ('\x7b' :: ·)) (payloadBody?_braced s)

theorem newline_not_mem_initLine {s : List Char} (h : '\n' ∉ s) :
    '\n' ∉ initLine (braced s) := by
  have hbraced : '\n' ∉ braced s := by simp [braced, h]
  have hopening : '\n' ∉ "%%\x7binit: ".toList := by decide
  have hclosing : '\n' ∉ "\x7d%%".toList := by decide
  unfold initLine
  rw [List.mem_append, List.mem_append, not_or, not_or]
  exact ⟨hopening, hbraced, hclosing⟩

section Parse

variable (parse : List Char → Option Json)

def progressBy (d : Defaults) (found : List (List Char)) : Progress :=
  found.foldl (Progress.readBy parse d) {}

theorem progressBy_readInit? (d : Defaults) (found : List (List Char)) :
    progressBy readInit? d found = progressAfter d found := rfl

theorem readBy_eq_progressBy (t : Theme) (source : String) :
    readBy parse t source = (progressBy parse (.ofTheme t) (rows source.toList)).document :=
  congrArg Progress.document (foldl_readBy_lines parse (.ofTheme t) source.toList)

theorem progressBy_append (d : Defaults) (before after : List (List Char)) :
    progressBy parse d (before ++ after) =
      after.foldl (Progress.readBy parse d) (progressBy parse d before) := List.foldl_append

variable {parse} {d : Defaults}

/-- Outside notes the line leaves no settings when its object cannot be read. -/
theorem Progress.readBy_initLine {p : Progress} (houtside : p.inNote = false) {s : List Char}
    (hunreadable : parse (braced s) = none) :
    p.readBy parse d (initLine (braced s)) = { p with init := none } := by
  have hsome : (trim (initLine (braced s))).isEmpty = false := by
    rw [(snug_initLine _).trim]
    rfl
  rw [Progress.readBy, if_neg (by simp [hsome]), if_neg (by simp [houtside]),
    initPayload?_initLine]
  exact congrArg (fun found => { p with init := found }) hunreadable

/-- Settings that a reading starts with are those it ends with, unless a directive is on its way;
nothing else depends on them. -/
theorem document_foldl_readBy_of_init (p : Progress) (start : Option Json)
    (lines : List (List Char)) :
    (lines.foldl (Progress.readBy parse d) { p with init := start }).document =
      { (lines.foldl (Progress.readBy parse d) p).document with
        init := if payloadsBy p.inNote lines = [] then start
          else (lines.foldl (Progress.readBy parse d) p).init } := by
  have hstate : (lines.foldl (Progress.readBy parse d) { p with init := start }).state =
      (lines.foldl (Progress.readBy parse d) p).state := by
    rw [state_foldl_readBy, state_foldl_readBy]
  rw [Progress.document, hstate, init_foldl_readBy, init_foldl_readBy, Progress.document]
  -- the last directive on the way decides, whatever the reading starts with
  rcases List.eq_nil_or_concat' (payloadsBy p.inNote lines) with hnone | ⟨front, last, hlast⟩
  · rw [hnone]
    rfl
  · rw [hlast, List.getLast?_concat, if_neg (by simp)]
    rfl

/-- The graph stays as it is, and so do the settings if a directive follows; else they are lost. -/
theorem readBy_insert_unreadable (t : Theme) {source : String} {before after : List (List Char)}
    {s : List Char} (hsource : rows source.toList = before ++ after)
    (houtside : (progressBy parse (.ofTheme t) before).inNote = false) (hbreak : '\n' ∉ s)
    (hunreadable : parse (braced s) = none) :
    readBy parse t (String.ofList (ofRows (before ++ initLine (braced s) :: after))) =
      { readBy parse t source with
        init := if payloadsBy false after = [] then none else (readBy parse t source).init } := by
  have hkept : ∀ row ∈ before ++ after, '\n' ∉ row := by
    rw [← hsource]
    exact fun row => Text.newline_not_mem_of_mem_rows
  obtain ⟨hbefore, hafter⟩ := List.forall_mem_append.1 hkept
  have hrows : ∀ row ∈ before ++ initLine (braced s) :: after, '\n' ∉ row :=
    List.forall_mem_append.2
      ⟨hbefore, List.forall_mem_cons.2 ⟨newline_not_mem_initLine hbreak, hafter⟩⟩
  rw [readBy_eq_progressBy, String.toList_ofList, Text.rows_ofRows (by simp) hrows,
    progressBy_append, List.foldl_cons, Progress.readBy_initLine houtside hunreadable,
    document_foldl_readBy_of_init, houtside, readBy_eq_progressBy, hsource, progressBy_append]
  rfl

/-- Lines without a directive keep the settings that were there. -/
theorem init_readBy_append (t : Theme) {source : String} {before after : List (List Char)}
    (hsource : rows source.toList = before ++ after)
    (houtside : (progressBy parse (.ofTheme t) before).inNote = false)
    (hnone : payloadsBy false after = []) :
    (readBy parse t source).init = (progressBy parse (.ofTheme t) before).init := by
  rw [readBy_eq_progressBy, hsource, progressBy_append, Progress.document, init_foldl_readBy, houtside, hnone]
  rfl

end Parse

/-- The last item is what a reader makes the last result of, if it reads that item or none. -/
theorem getLast?_bind_eq_iff {α β : Type} {read : α → Option β} {items : List α} :
    items.getLast?.bind read = (items.filterMap read).getLast? ↔
      (∀ a ∈ items, read a = none) ∨ ∃ a, items.getLast? = some a ∧ (read a).isSome = true := by
  rcases List.eq_nil_or_concat' items with rfl | ⟨front, last, rfl⟩
  · simp
  · rw [List.getLast?_concat, List.filterMap_append, Option.bind_some]
    cases hlast : read last with
    | some b => simp [hlast]
    -- the last item gives nothing, so the other side must find nothing in front of it either
    | none =>
      have hlost : [last].filterMap read = [] := by simp [hlast]
      have hnot : ¬ ∃ a, some last = some a ∧ (read a).isSome = true := by simp [hlast]
      rw [hlost, List.append_nil, eq_comm, List.getLast?_eq_none_iff, List.filterMap_eq_nil_iff,
        or_iff_left hnot, List.forall_mem_append, List.forall_mem_singleton, and_iff_left hlast]

/-- A directive whose object cannot be read, put in as a line of its own where the source is not in
a note, changes nothing exactly if another one follows or the lines before it leave no settings. So
the settings of a source are those of the last directive that can be read only if that is the last
one of all, or if none can be read. This does not depend on how objects are read. -/
theorem readWith_unreadable_iff (parse : List Char → Option Json) (t : Theme) (source : String) :
    (∀ before after s, rows source.toList = before ++ after →
      (progressBy parse (.ofTheme t) before).inNote = false → '\n' ∉ s →
      parse (braced s) = none →
        readBy parse t (String.ofList (ofRows (before ++ initLine (braced s) :: after))) =
          { readBy parse t source with
            init := if payloadsBy false after = [] then none else (readBy parse t source).init } ∧
        (readBy parse t (String.ofList (ofRows (before ++ initLine (braced s) :: after))) =
            readBy parse t source ↔
          payloadsBy false after ≠ [] ∨ (progressBy parse (.ofTheme t) before).init = none)) ∧
    ((readBy parse t source).init =
        ((payloadsBy false (Text.lines source.toList)).filterMap parse).getLast? ↔
      (∀ payload ∈ payloadsBy false (Text.lines source.toList), parse payload = none) ∨
      ∃ last, (payloadsBy false (Text.lines source.toList)).getLast? = some last ∧
        (parse last).isSome = true) := by
  constructor
  · intro before after s hsource houtside hbreak hunreadable
    have hchanged := readBy_insert_unreadable t hsource houtside hbreak hunreadable
    refine ⟨hchanged, ?_⟩
    rw [hchanged]
    by_cases hnone : payloadsBy false after = []
    -- the settings from before the line are those at the end of the source as it was
    · rw [if_pos hnone, or_iff_right (not_not_intro hnone),
        ← init_readBy_append t hsource houtside hnone]
      constructor
      · intro hsame
        exact (congrArg Document.init hsame).symm
      · intro hinit
        rw [← hinit]
    · rw [if_neg hnone]
      exact iff_of_true rfl (.inl hnone)
  · rw [init_document_readBy]
    exact getLast?_bind_eq_iff

def themeLine : List Char := "%%\x7binit: \x7b\"theme\":\"modern\"\x7d\x7d%%".toList

theorem unreadableBeforeReadable_ignored :
    readWith .standard (String.ofList (ofRows
        ["A".toList, initLine (braced "\"theme\":".toList), themeLine])) =
      readWith .standard (String.ofList (ofRows ["A".toList, themeLine])) ∧
    (readWith .standard (String.ofList (ofRows ["A".toList, themeLine]))).init =
      readInit? (braced "\"theme\":\"modern\"".toList) := by
  obtain ⟨hinsert, hlast⟩ :=
    readWith_unreadable_iff readInit? .standard (String.ofList (ofRows ["A".toList, themeLine]))
  simp only [readBy_readInit?, progressBy_readInit?] at hinsert hlast
  have hunreadable : readInit? (braced "\"theme\":".toList) = none :=
    Option.isNone_iff_eq_none.1 (by decide +kernel)
  obtain ⟨-, hsame⟩ := hinsert ["A".toList] [themeLine] _ (by decide +kernel) (by decide +kernel)
    (by decide) hunreadable
  have hpayloads : payloadsBy false
      (Text.lines (String.ofList (ofRows ["A".toList, themeLine])).toList) =
        [braced "\"theme\":\"modern\"".toList] := by decide +kernel
  have hreadable : (readInit? (braced "\"theme\":\"modern\"".toList)).isSome = true := by
    decide +kernel
  rw [hpayloads] at hlast
  have hinit := hlast.2 (.inr ⟨_, rfl, hreadable⟩)
  refine ⟨hsame.2 (.inl (by decide +kernel)), hinit.trans ?_⟩
  simp

/-- The settings of a directive do not outlast one that cannot be read. -/
theorem unreadableAfterReadable_loses_settings :
    rows (String.ofList themeLine).toList = [themeLine] ++ [] ∧
      (progressAfter (.ofTheme .standard) [themeLine]).inNote = false ∧
      '\n' ∉ "\"theme\":".toList ∧ (readInit? (braced "\"theme\":".toList)).isNone = true ∧
      (readWith .standard (String.ofList themeLine)).init.isSome = true ∧
      (readWith .standard (String.ofList (ofRows
        ([themeLine] ++ [initLine (braced "\"theme\":".toList)])))).init.isNone = true := by
  decide +kernel

end Flowchart.Source
