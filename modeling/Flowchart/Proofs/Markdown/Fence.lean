import Flowchart.Markdown
import Flowchart.Proofs.Text.Snug
import Mathlib.Data.List.Infix

namespace Flowchart.Markdown

open Text (isBlank trim trimEnd Snug)

def markers : List Char := ['`', '~']

/-- The line is three markers and no more, blanks around them aside. -/
def IsFence (marker : Char) (line : List Char) : Prop := trim line = fence marker

instance (marker : Char) (line : List Char) : Decidable (IsFence marker line) :=
  inferInstanceAs (Decidable (trim line = fence marker))

/-- The line opens a diagram with a run of markers: indentation, the run, blanks, and an info text that
begins with the name of a diagram. -/
def OpensBy (n : Nat) (marker : Char) (line : List Char) : Prop :=
  marker ∈ markers ∧ ∃ indent gap info,
    line = indent ++ (List.replicate n marker ++ (gap ++ info)) ∧
    (∀ c ∈ indent, isBlank c = true) ∧ (∀ c ∈ gap, isBlank c = true) ∧
    ∃ name ∈ diagramNames, name <+: info

/-- The line opens a diagram with three markers or more. -/
def Opens (marker : Char) (line : List Char) : Prop := ∃ n, 3 ≤ n ∧ OpensBy n marker line

theorem isBlank_of_mem_markers {marker : Char} (h : marker ∈ markers) : isBlank marker = false := by
  have hall : markers.all (!isBlank ·) = true := by decide
  simpa using List.all_eq_true.1 hall marker h

theorem snug_fence {marker : Char} (h : marker ∈ markers) : Snug (fence marker) := by
  apply Text.snug_of_forall (List.cons_ne_nil _ _)
  intro c hc
  obtain rfl : c = marker := by simpa [fence] using hc
  exact isBlank_of_mem_markers h

theorem snug_of_mem_diagramNames {name : List Char} (h : name ∈ diagramNames) : Snug name := by
  have hall : ∀ d ∈ diagramNames, d ≠ [] ∧ d.all (!isBlank ·) = true := by decide
  obtain ⟨hne, hvisible⟩ := hall name h
  exact Text.snug_of_forall hne (by simpa using hvisible)

theorem exists_head_of_mem_diagramNames {name : List Char} (h : name ∈ diagramNames) :
    ∃ c, name.head? = some c ∧ c ∉ markers := by
  have hhead : name.head?.any (· ∉ markers) = true :=
    (by decide : ∀ d ∈ diagramNames, d.head?.any (· ∉ markers) = true) name h
  obtain ⟨c, hc, hnot⟩ := (Option.any_eq_true _ _).1 hhead
  exact ⟨c, hc, by simpa using hnot⟩

/-- A closing line is three markers: what may follow them is blank, and trimming has taken it away. -/
theorem closes_iff {marker : Char} (hmarker : marker ∈ markers) (line : List Char) :
    closes marker line = true ↔ IsFence marker line := by
  have hfence := (snug_fence hmarker).trim
  rw [closes, IsFence]
  constructor
  · intro h
    split at h
    · next rest hrest =>
      have hline := List.isPrefixOf?_eq_some_iff_append_eq.1 hrest
      have hblank : ∀ c ∈ rest, isBlank c = true := List.all_eq_true.1 h
      calc trim line
        _ = trim (fence marker ++ rest) := by rw [hline, Text.trim_trim]
        _ = fence marker := by rw [Text.trim_append_blanks hblank, hfence]
    · exact absurd h Bool.false_ne_true
  · intro h
    have hwhole : (fence marker).isPrefixOf? (fence marker) = some [] :=
      List.isPrefixOf?_eq_some_iff_append_eq.2 (List.append_nil _)
    rw [h, hwhole]
    rfl

/-- A run of markers closes exactly when there are three of them. -/
theorem isFence_replicate_iff {marker : Char} (hmarker : marker ∈ markers) (n : Nat) :
    IsFence marker (List.replicate n marker) ↔ n = 3 := by
  have hblank : ∀ c ∈ List.replicate n marker, isBlank c = false := by
    intro c hc
    rw [List.eq_of_mem_replicate hc]
    exact isBlank_of_mem_markers hmarker
  have htrim : trim (List.replicate n marker) = List.replicate n marker := by
    cases n with
    | zero => rfl
    | succ n => exact (Text.snug_of_forall (List.cons_ne_nil _ _) hblank).trim
  rw [IsFence, htrim]
  constructor
  · intro h
    simpa [fence] using congrArg List.length h
  · rintro rfl
    rfl

theorem opensBy_run {marker : Char} (hmarker : marker ∈ markers) (n : Nat) :
    OpensBy n marker (List.replicate n marker ++ "mermaid".toList) :=
  ⟨hmarker, [], [], "mermaid".toList, rfl, nofun, nofun, "mermaid".toList, List.mem_cons_self,
    List.prefix_rfl⟩

theorem opensWith_of_opens {marker : Char} {line : List Char} (h : Opens marker line) :
    opensWith line marker = true := by
  obtain ⟨n, hn, hmarker, indent, gap, info, rfl, hindent, hgap, name, hname, more, rfl⟩ := h
  obtain ⟨c, hc, hnot⟩ := exists_head_of_mem_diagramNames hname
  have hsnug := snug_of_mem_diagramNames hname
  have hrun : List.replicate n marker = fence marker ++ List.replicate (n - 3) marker := by
    obtain ⟨k, rfl⟩ := Nat.exists_eq_add_of_le hn
    rw [Nat.add_sub_cancel_left, List.replicate_add]
    rfl
  have hline : trim (indent ++ (List.replicate n marker ++ (gap ++ (name ++ more)))) =
      List.replicate n marker ++ (gap ++ (name ++ trimEnd more)) := by
    have hwhole : Snug (List.replicate n marker ++ (gap ++ name)) := by
      refine ⟨?_, (hsnug.closes.append gap).append _⟩
      rw [hrun, List.append_assoc]
      exact (snug_fence hmarker).leads.append _
    have htrim := Text.trim_append_snug hindent hwhole more
    simpa only [List.append_assoc] using htrim
  have hinfo : (List.replicate n marker ++ (gap ++ (name ++ trimEnd more))).dropWhile (· == marker) =
      gap ++ (name ++ trimEnd more) := by
    have hfirst : ∀ d ∈ (gap ++ (name ++ trimEnd more)).head?, d ≠ marker := by
      rintro d hd rfl
      cases gap with
      | nil =>
        rw [List.nil_append, List.head?_append, hc] at hd
        obtain rfl := Option.some.inj hd
        exact hnot hmarker
      | cons b gap =>
        obtain rfl := Option.some.inj hd
        exact Text.ne_of_isBlank (hgap b List.mem_cons_self) (isBlank_of_mem_markers hmarker) rfl
    rw [List.dropWhile_append_of_pos (fun d hd => by simp [List.eq_of_mem_replicate hd])]
    cases hrest : gap ++ (name ++ trimEnd more) with
    | nil => rfl
    | cons d r =>
      rw [hrest] at hfirst
      exact List.dropWhile_cons_of_neg (by simpa using hfirst d rfl)
  have hstart : (fence marker).isPrefixOf
      (List.replicate n marker ++ (gap ++ (name ++ trimEnd more))) = true := by
    rw [List.isPrefixOf_iff_prefix, hrun, List.append_assoc]
    exact List.prefix_append _ _
  have hnamed : diagramNames.any
      (·.isPrefixOf (trim (gap ++ (name ++ trimEnd more)))) = true := by
    have htrim := Text.trim_append_snug hgap hsnug (trimEnd more)
    rw [List.append_assoc] at htrim
    rw [htrim, List.any_eq_true]
    exact ⟨name, hname, List.isPrefixOf_iff_prefix.2 (List.prefix_append _ _)⟩
  rw [opensWith, hline, hinfo, hstart, hnamed]
  rfl

theorem opens_of_opensWith {marker : Char} (hmarker : marker ∈ markers) {line : List Char}
    (h : opensWith line marker = true) : Opens marker line := by
  rw [opensWith] at h
  obtain ⟨hstart, hnamed⟩ := Bool.and_eq_true_iff.1 h
  obtain ⟨name, hname, hinfo⟩ := List.any_eq_true.1 hnamed
  obtain ⟨indent, after, hline, hindent, hafter⟩ := Text.exists_trim line
  have hrun : (trim line).takeWhile (· == marker) =
      List.replicate ((trim line).takeWhile (· == marker)).length marker := by
    apply List.eq_replicate_of_mem
    intro c hc
    simpa using List.mem_takeWhile_imp hc
  obtain ⟨gap, tail, hrest, hgap, -⟩ := Text.exists_trim ((trim line).dropWhile (· == marker))
  have hlength : 3 ≤ ((trim line).takeWhile (· == marker)).length := by
    obtain ⟨r, hr⟩ := List.isPrefixOf_iff_prefix.1 hstart
    rw [← hr]
    simp [fence]
  refine ⟨_, hlength, hmarker, indent, gap,
    trim ((trim line).dropWhile (· == marker)) ++ tail ++ after, ?_, hindent, hgap, name, hname, ?_⟩
  · rw [← hrun]
    calc line
      _ = indent ++ trim line ++ after := hline
      _ = indent ++ ((trim line).takeWhile (· == marker) ++
            (trim line).dropWhile (· == marker)) ++ after := by
          rw [List.takeWhile_append_dropWhile]
      _ = _ := by
          conv_lhs => rw [hrest]
          simp only [List.append_assoc]
  · rw [List.append_assoc]
    exact (List.isPrefixOf_iff_prefix.1 hinfo).trans (List.prefix_append _ _)

theorem Opens.unique {marker other : Char} {line : List Char} (h : Opens marker line)
    (h' : Opens other line) : marker = other := by
  have hstart {m : Char} (hm : Opens m line) : fence m <+: trim line := by
    have hopens := opensWith_of_opens hm
    rw [opensWith] at hopens
    exact List.isPrefixOf_iff_prefix.1 (Bool.and_eq_true_iff.1 hopens).1
  have hmarkers := List.prefix_of_prefix_length_le (hstart h) (hstart h') le_rfl
  exact (List.cons_prefix_cons.1 hmarkers).1

theorem opening?_eq_some_iff {marker : Char} {line : List Char} :
    opening? line = some marker ↔ Opens marker line := by
  have hmarkers : opening? line = markers.find? (opensWith line) := rfl
  rw [hmarkers]
  constructor
  · intro h
    exact opens_of_opensWith (List.mem_of_find?_eq_some h) (List.find?_some h)
  · intro h
    cases hfound : markers.find? (opensWith line) with
    | none =>
      obtain ⟨n, hn, hmarker, hline⟩ := h
      exact absurd (opensWith_of_opens ⟨n, hn, hmarker, hline⟩)
        (List.find?_eq_none.1 hfound marker hmarker)
    | some other =>
      have hother := opens_of_opensWith (List.mem_of_find?_eq_some hfound) (List.find?_some hfound)
      rw [hother.unique h]

theorem opening?_eq_none_iff {line : List Char} :
    opening? line = none ↔ ∀ marker, ¬ Opens marker line := by
  constructor
  · intro h marker hopens
    rw [opening?_eq_some_iff.2 hopens] at h
    exact Option.some_ne_none marker h
  · intro h
    cases hfound : opening? line with
    | none => rfl
    | some marker => exact absurd (opening?_eq_some_iff.1 hfound) (h marker)

end Flowchart.Markdown
