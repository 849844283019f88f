import Flowchart.Color.Reading
import Flowchart.Proofs.Text.Snug

namespace Flowchart.Color

open Text (hexValue? isBlank lower trim)

def hexDigits : List Char := "0123456789abcdefABCDEF".toList

structure IsHex (digits : List Char) : Prop where
  length : digits.length = 3 ∨ digits.length = 6 ∨ digits.length = 8
  digit : ∀ c ∈ digits, c ∈ hexDigits

instance : DecidablePred IsHex := fun digits =>
  decidable_of_iff ((digits.length = 3 ∨ digits.length = 6 ∨ digits.length = 8) ∧
      digits.all (hexDigits.contains ·) = true)
    ⟨fun h => ⟨h.1, by simpa using h.2⟩, fun h => ⟨h.length, by simpa using h.digit⟩⟩

def rewritten (digits : List Char) : List Char :=
  if digits.length = 3 then (lower digits).flatMap fun c => [c, c]
  else if digits.length = 8 ∧ (lower digits).take 2 = ['f', 'f'] then (lower digits).drop 2
  else lower digits

theorem hexValue?_hexDigit {n : Nat} (hn : n < 16) : hexValue? (hexDigit n) = some n :=
  (by decide : ∀ n < 16, hexValue? (hexDigit n) = some n) n hn

theorem isBlank_hexDigit {n : Nat} (hn : n < 16) : isBlank (hexDigit n) = false :=
  (by decide : ∀ n < 16, isBlank (hexDigit n) = false) n hn

theorem exists_value {c : Char} (hc : c ∈ hexDigits) :
    ∃ n, hexValue? c = some n ∧ n < 16 ∧ hexDigit n = c.toLower := by
  have hall : hexDigits.all (fun c =>
      (hexValue? c).any fun n => n < 16 ∧ hexDigit n = c.toLower) = true := by decide
  have hvalue := List.all_eq_true.1 hall c hc
  obtain ⟨n, hn, hfacts⟩ := (Option.any_eq_true _ _).1 hvalue
  exact ⟨n, hn, of_decide_eq_true hfacts⟩

/-- No other character has a value: a digit has one of the first code points, and these are few. -/
theorem hexValue?_eq_none {c : Char} (hc : c ∉ hexDigits) : hexValue? c = none := by
  have hfew : ∀ n < 128, Char.ofNat n ∉ hexDigits → hexValue? (Char.ofNat n) = none := by
    decide +kernel
  by_cases hsmall : c.toNat < 128
  · have h := hfew c.toNat hsmall
    rw [Char.ofNat_toNat] at h
    exact h hc
  · have hle {d : Char} (hd : d.toNat < 128) : ¬ c ≤ d := by
      rw [Char.le_def, UInt32.le_iff_toNat_le]
      change ¬ c.toNat ≤ d.toNat
      omega
    have hdigit : c.isDigit = false := by
      rw [Char.isDigit, Bool.and_eq_false_iff]
      right
      exact decide_eq_false (hle (d := '9') (by decide))
    rw [hexValue?, hdigit, if_neg Bool.false_ne_true, if_neg fun h => hle (by decide) h.2,
      if_neg fun h => hle (by decide) h.2]

theorem exists_values {digits : List Char} (h : ∀ c ∈ digits, c ∈ hexDigits) :
    ∃ values, digits.mapM hexValue? = some values ∧ values.map hexDigit = lower digits ∧
      ∀ n ∈ values, n < 16 := by
  induction digits with
  | nil => exact ⟨[], rfl, rfl, fun n hn => absurd hn List.not_mem_nil⟩
  | cons c digits ih =>
    obtain ⟨hc, hrest⟩ := List.forall_mem_cons.1 h
    obtain ⟨n, hvalue, hn, hdigit⟩ := exists_value hc
    obtain ⟨values, hvalues, hdigits, hsmall⟩ := ih hrest
    refine ⟨n :: values, ?_, ?_, List.forall_mem_cons.2 ⟨hn, hsmall⟩⟩
    · rw [List.mapM_cons, hvalue, hvalues]
      rfl
    · rw [List.map_cons, hdigit, hdigits]
      rfl

theorem mapM_hexValue?_eq_none {digits : List Char} {c : Char} (hc : c ∈ digits)
    (hnot : c ∉ hexDigits) : digits.mapM hexValue? = none := by
  induction digits with
  | nil => exact absurd hc List.not_mem_nil
  | cons d digits ih =>
    rw [List.mapM_cons]
    rcases List.mem_cons.1 hc with rfl | hc
    · rw [hexValue?_eq_none hnot]
      rfl
    · rw [ih hc]
      cases hexValue? d <;> rfl

theorem channel_digits (n : UInt8) : channel (n.toNat / 16) (n.toNat % 16) = n := by
  rw [channel, Nat.div_add_mod]
  exact UInt8.ofNat_toNat

theorem channelText_channel {high low : Nat} (hhigh : high < 16) (hlow : low < 16) :
    channelText (channel high low) = [hexDigit high, hexDigit low] := by
  have hvalue : (channel high low).toNat = 16 * high + low := by
    rw [channel, UInt8.toNat_ofNat_of_lt' (by simp only [UInt8.size]; omega)]
  have hdiv : (16 * high + low) / 16 = high := by omega
  have hmod : (16 * high + low) % 16 = low := by omega
  rw [channelText, hvalue, hdiv, hmod]

/-- A channel is full exactly when both of its digits are. -/
theorem channel_eq_full_iff {high low : Nat} (hhigh : high < 16) (hlow : low < 16) :
    channel high low = 255 ↔ [hexDigit high, hexDigit low] = ['f', 'f'] :=
  (by decide +kernel : ∀ a < 16, ∀ b < 16,
    channel a b = 255 ↔ [hexDigit a, hexDigit b] = ['f', 'f']) high hhigh low hlow

/-- The two digits of a channel are read as its value. -/
theorem mapM_channelText (n : UInt8) (rest : List Char) :
    (channelText n ++ rest).mapM hexValue? =
      (rest.mapM hexValue?).map fun values => n.toNat / 16 :: n.toNat % 16 :: values := by
  have hn := n.toNat_lt
  have hhigh := hexValue?_hexDigit (n := n.toNat / 16) (by omega)
  have hlow := hexValue?_hexDigit (n := n.toNat % 16) (by omega)
  rw [channelText, List.cons_append, List.cons_append, List.nil_append, List.mapM_cons,
    List.mapM_cons, hhigh, hlow]
  cases rest.mapM hexValue? <;> rfl

theorem isBlank_of_mem_channelText {n : UInt8} {c : Char} (hc : c ∈ channelText n) :
    isBlank c = false := by
  have hn := n.toNat_lt
  have hc : c = hexDigit (n.toNat / 16) ∨ c = hexDigit (n.toNat % 16) := by
    simpa [channelText] using hc
  rcases hc with rfl | rfl
  · exact isBlank_hexDigit (by omega)
  · exact isBlank_hexDigit (by omega)

theorem read_of_hash {s digits : List Char} (h : trim s = '#' :: digits) :
    read s = match ofHex? digits with
      | some c => .ok c
      | none => .error (.badHex (String.ofList (trim s))) := by
  rw [read, h]
  rfl

/-- Channels behind a number sign are read as they stand. -/
theorem read_hash_channels (channels : List UInt8) {c : Color}
    (h : ofHex? (channels.flatMap channelText) = some c) :
    read ('#' :: channels.flatMap channelText) = .ok c := by
  have hvisible : ∀ d ∈ '#' :: channels.flatMap channelText, isBlank d = false := by
    refine List.forall_mem_cons.2 ⟨rfl, fun d hd => ?_⟩
    obtain ⟨n, -, hd⟩ := List.mem_flatMap.1 hd
    exact isBlank_of_mem_channelText hd
  rw [read_of_hash (Text.snug_of_forall (List.cons_ne_nil _ _) hvisible).trim, h]

theorem read_toHex {c : Color} (h : c.isOpaque = true) : read c.toHex.toList = .ok c := by
  have hfull : c.a = 255 := by simpa [isOpaque] using h
  have htext : c.toHex.toList = '#' :: [c.r, c.g, c.b].flatMap channelText := by
    simp [toHex]
  have hread : ofHex? ([c.r, c.g, c.b].flatMap channelText) = some c := by
    rw [ofHex?, List.flatMap_cons, List.flatMap_cons, List.flatMap_cons, List.flatMap_nil,
      mapM_channelText, mapM_channelText, mapM_channelText]
    change some (Color.rgb (channel _ _) (channel _ _) (channel _ _)) = some c
    rw [channel_digits, channel_digits, channel_digits, rgb, ← hfull]
  rw [htext]
  exact read_hash_channels _ hread

theorem read_toText (c : Color) : read c.toText.toList = .ok c := by
  rw [toText]
  split
  · next h => exact read_toHex h
  · have hread : ofHex? ([c.a, c.r, c.g, c.b].flatMap channelText) = some c := by
      rw [ofHex?, List.flatMap_cons, List.flatMap_cons, List.flatMap_cons, List.flatMap_cons,
        List.flatMap_nil, mapM_channelText, mapM_channelText, mapM_channelText, mapM_channelText]
      change some (Color.mk (channel _ _) (channel _ _) (channel _ _) (channel _ _)) = some c
      rw [channel_digits, channel_digits, channel_digits, channel_digits]
    have htext : (String.ofList ('#' :: channelText c.a ++ channelText c.r ++ channelText c.g ++
        channelText c.b)).toList = '#' :: [c.a, c.r, c.g, c.b].flatMap channelText := by
      simp
    rw [htext]
    exact read_hash_channels _ hread

theorem toText_eq (c : Color) : c.toText = String.ofList
    ('#' :: if c.a = 255 then [c.r, c.g, c.b].flatMap channelText
      else [c.a, c.r, c.g, c.b].flatMap channelText) := by
  by_cases h : c.a = 255 <;> simp [toText, toHex, isOpaque, h]

/-- Two full digits of eight say that the colour is opaque, and then they are not written. -/
theorem toText_of_eight {a a' r r' g g' b b' : Nat}
    (h : ∀ n ∈ [a, a', r, r', g, g', b, b'], n < 16) :
    (Color.mk (channel r r') (channel g g') (channel b b') (channel a a')).toText =
      String.ofList ('#' :: (if [hexDigit a, hexDigit a'] = ['f', 'f'] then []
        else [hexDigit a, hexDigit a']) ++ [r, r', g, g', b, b'].map hexDigit) := by
  obtain ⟨ha, ha', hr, hr', hg, hg', hb, hb'⟩ : a < 16 ∧ a' < 16 ∧ r < 16 ∧ r' < 16 ∧ g < 16 ∧
      g' < 16 ∧ b < 16 ∧ b' < 16 := by simpa using h
  rw [toText_eq]
  by_cases hfull : [hexDigit a, hexDigit a'] = ['f', 'f']
  · rw [if_pos ((channel_eq_full_iff ha ha').2 hfull), if_pos hfull]
    simp [channelText_channel, hr, hr', hg, hg', hb, hb']
  · rw [if_neg (hfull ∘ (channel_eq_full_iff ha ha').1), if_neg hfull]
    simp [channelText_channel, ha, ha', hr, hr', hg, hg', hb, hb']

theorem ofHex?_of_isHex {digits : List Char} (h : IsHex digits) :
    ∃ c, ofHex? digits = some c ∧ c.toText = String.ofList ('#' :: rewritten digits) := by
  obtain ⟨values, hvalues, hdigits, hsmall⟩ := exists_values h.digit
  have hlength : (lower digits).length = digits.length := by simp [lower]
  rw [ofHex?, hvalues, rewritten, ← hlength, ← hdigits, List.length_map]
  have hcases : values.length = 3 ∨ values.length = 6 ∨ values.length = 8 := by
    rw [← List.length_map (f := hexDigit), hdigits, hlength]
    exact h.length
  match values, hsmall, hcases with
  | [r, g, b], hsmall, _ =>
    obtain ⟨hr, hg, hb⟩ : r < 16 ∧ g < 16 ∧ b < 16 := by simpa using hsmall
    refine ⟨.rgb (channel r r) (channel g g) (channel b b), rfl, ?_⟩
    simp [toText_eq, rgb, channelText_channel, hr, hg, hb]
  | [r, r', g, g', b, b'], hsmall, _ =>
    obtain ⟨hr, hr', hg, hg', hb, hb'⟩ : r < 16 ∧ r' < 16 ∧ g < 16 ∧ g' < 16 ∧ b < 16 ∧
        b' < 16 := by simpa using hsmall
    refine ⟨.rgb (channel r r') (channel g g') (channel b b'), rfl, ?_⟩
    simp [toText_eq, rgb, channelText_channel, hr, hr', hg, hg', hb, hb']
  | [a, a', r, r', g, g', b, b'], hsmall, _ =>
    refine ⟨⟨channel r r', channel g g', channel b b', channel a a'⟩, rfl, ?_⟩
    rw [toText_of_eight hsmall]
    by_cases hfull : hexDigit a = 'f' ∧ hexDigit a' = 'f' <;> simp [hfull]

theorem ofHex?_of_not_isHex {digits : List Char} (h : ¬ IsHex digits) : ofHex? digits = none := by
  by_cases hdigit : ∀ c ∈ digits, c ∈ hexDigits
  · obtain ⟨values, hvalues, hdigits, -⟩ := exists_values hdigit
    have hlength : digits.length = values.length := by
      simpa [lower] using (congrArg List.length hdigits).symm
    have hno : ¬ (values.length = 3 ∨ values.length = 6 ∨ values.length = 8) :=
      fun hl => h ⟨hlength ▸ hl, hdigit⟩
    rw [ofHex?, hvalues]
    dsimp only [Option.bind_eq_bind, Option.bind_some]
    split
    · exact absurd (.inl rfl) hno
    · exact absurd (.inr (.inl rfl)) hno
    · exact absurd (.inr (.inr rfl)) hno
    · rfl
  · obtain ⟨c, hc⟩ := not_forall.1 hdigit
    obtain ⟨hc, hnot⟩ := Classical.not_imp.1 hc
    rw [ofHex?, mapM_hexValue?_eq_none hc hnot]
    rfl

/-- Every colour is read from the text that is written for it. Behind a number sign, three, six or
eight hexadecimal digits are read and nothing else is, and the colour that was read is written with
the same digits. -/
theorem read_inverts_writing :
    (∀ c : Color, read c.toText.toList = .ok c) ∧
    (∀ c : Color, c.isOpaque = true → read c.toHex.toList = .ok c) ∧
    ∀ s digits, trim s = '#' :: digits →
      ((∃ c, read s = .ok c) ↔ IsHex digits) ∧
      (¬ IsHex digits → read s = .error (.badHex (String.ofList (trim s)))) ∧
      ∀ c, read s = .ok c → c.toText = String.ofList ('#' :: rewritten digits) := by
  refine ⟨read_toText, fun _ => read_toHex, fun s digits hs => ?_⟩
  rw [read_of_hash hs]
  by_cases h : IsHex digits
  · obtain ⟨c, hread, htext⟩ := ofHex?_of_isHex h
    rw [hread]
    refine ⟨iff_of_true ⟨c, rfl⟩ h, absurd h, fun d hd => ?_⟩
    cases hd
    exact htext
  · rw [ofHex?_of_not_isHex h]
    exact ⟨iff_of_false (fun ⟨_, hc⟩ => nomatch hc) h, fun _ => rfl, fun _ hc => nomatch hc⟩

/-- The opacity of a colour is dropped when it says nothing, and two digits are not a colour. -/
theorem read_opaque_digits :
    let orange : Color := .rgb 255 165 0
    let digits := "FFa1B2c3".toList
    orange.isOpaque = true ∧ read orange.toHex.toList = .ok orange ∧
      trim " #FFa1B2c3 ".toList = '#' :: digits ∧ IsHex digits ∧
      (∃ c, read " #FFa1B2c3 ".toList = .ok c ∧ c.toText = "#a1b2c3") ∧
      trim " #12".toList = '#' :: "12".toList ∧ ¬ IsHex "12".toList ∧
      read " #12".toList = .error (.badHex "#12") := by
  intro orange digits
  obtain ⟨-, hhex, hread⟩ := read_inverts_writing
  have htrim : trim " #FFa1B2c3 ".toList = '#' :: digits := by decide
  have hdigits : IsHex digits := by decide
  obtain ⟨c, hc⟩ := (hread _ _ htrim).1.2 hdigits
  have htwo : trim " #12".toList = '#' :: "12".toList := by decide
  have hnot : ¬ IsHex "12".toList := by decide
  refine ⟨rfl, hhex orange rfl, htrim, hdigits, ⟨c, hc, ?_⟩, htwo, hnot, ?_⟩
  · rw [(hread _ _ htrim).2.2 c hc]
    decide
  · rw [(hread _ _ htwo).2.1 hnot, htwo]
    decide

end Flowchart.Color
