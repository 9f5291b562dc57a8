/-
# What an env file gives back

A line that was rendered gives its value back if the value has no blanks at its ends, no line
terminator in it and no pair of quotes around it. A file gives back what was put into it if the line
that was written does, and no later line assigns the key again.
-/

import Mathlib.Data.List.Nodup
import Mathlib.Data.List.TakeWhile
import Eveland.Ctl.EnvFile

namespace Eveland.EnvFile

open JsString

/-! ## Names -/

section

variable {c : Char} {cs key rest line value : List Char}

theorem not_isWhitespace_of_isNameChar (h : isNameChar c = true) : isWhitespace c = false := by
  have hbound : 48 ≤ c.toNat ∧ c.toNat ≤ 122 := by
    have hclasses : isNameChar c = (((decide (65 ≤ c.val ∧ c.val ≤ 90) ||
        (decide (97 ≤ c.val) && decide (c.val ≤ 122))) ||
          (decide (48 ≤ c.val) && decide (c.val ≤ 57))) || decide (c = '_')) := rfl
    rw [hclasses] at h
    simp only [Bool.or_eq_true, Bool.and_eq_true, decide_eq_true_eq,
      UInt32.le_iff_toNat_le] at h
    rcases h with ((h | h) | h) | rfl
    · exact ⟨Nat.le_trans (by decide) h.1, Nat.le_trans h.2 (by decide)⟩
    · exact ⟨Nat.le_trans (by decide) h.1, Nat.le_trans h.2 (by decide)⟩
    · exact ⟨Nat.le_trans (by decide) h.1, Nat.le_trans h.2 (by decide)⟩
    · decide
  simp only [isWhitespace, Bool.or_eq_false_iff, List.contains_eq_mem, List.mem_cons,
    List.not_mem_nil, or_false, decide_eq_false_iff_not, not_or, Bool.and_eq_false_iff]
  omega

theorem isNameChar_of_isNameStart (h : isNameStart c = true) : isNameChar c = true := by
  rw [isNameStart, Bool.or_eq_true] at h
  rw [isNameChar, Char.isAlphanum, Bool.or_eq_true, Bool.or_eq_true]
  rcases h with h | h
  · exact .inl (.inl h)
  · exact .inr h

theorem all_isNameChar_of_isName (h : isName key = true) : ∀ c ∈ key, isNameChar c = true := by
  cases key with
  | nil => cases h
  | cons c cs =>
      rw [isName, Bool.and_eq_true, List.all_eq_true] at h
      intro d hd
      rcases List.mem_cons.mp hd with rfl | hd
      · exact isNameChar_of_isNameStart h.1
      · exact h.2 d hd

/-- A run of one class, up to what is not of it. -/
theorem takeWhile_append_of_stop {p : Char → Bool} {run after : List Char}
    (hrun : ∀ c ∈ run, p c = true) (hafter : ∀ c, after.head? = some c → p c = false) :
    (run ++ after).takeWhile p = run ∧ (run ++ after).dropWhile p = after := by
  rw [List.takeWhile_append_of_pos hrun, List.dropWhile_append_of_pos hrun]
  cases after with
  | nil => simp
  | cons c after => simp [hafter c rfl]

/-- What comes after a run is not of its class. -/
theorem head?_dropWhile {p : Char → Bool} (h : (cs.dropWhile p).head? = some c) : p c = false := by
  have hhead := List.head?_dropWhile_not p cs
  rw [h] at hhead
  exact hhead

theorem not_isNameChar_of_isWhitespace (h : isWhitespace c = true) : isNameChar c = false := by
  rw [Bool.eq_false_iff]
  intro hnameChar
  rw [not_isWhitespace_of_isNameChar hnameChar] at h
  cases h

/-- Blanks are not of a name. -/
theorem head?_blanks {blanks after : List Char} (hblanks : ∀ c ∈ blanks, isWhitespace c = true)
    (hafter : ∀ c, after.head? = some c → isNameChar c = false) :
    ∀ c, (blanks ++ after).head? = some c → isNameChar c = false := by
  intro c hc
  cases blanks with
  | nil => exact hafter c hc
  | cons blank blanks =>
      cases hc
      exact not_isNameChar_of_isWhitespace (hblanks _ List.mem_cons_self)

theorem head?_equals (p : Char → Bool) (hp : p '=' = false) (rest : List Char) :
    ∀ c, ('=' :: rest).head? = some c → p c = false := by
  intro c hc
  cases hc
  exact hp

/-- A name, blanks and an equals sign. -/
theorem splitName_eq_some : splitName cs = some (key, rest) ↔
    isName key = true ∧ ∃ blanks : List Char, (∀ c ∈ blanks, isWhitespace c = true) ∧
      cs = key ++ (blanks ++ '=' :: rest) := by
  constructor
  · intro h
    cases cs with
    | nil => cases h
    | cons c cs =>
        simp only [splitName] at h
        split at h
        · next hstart =>
            split at h
            · next after hafter =>
                cases h
                refine ⟨?_, (cs.dropWhile isNameChar).takeWhile isWhitespace, ?_, ?_⟩
                · rw [isName, hstart, Bool.true_and, List.all_eq_true]
                  exact fun d hd => List.mem_takeWhile_imp hd
                · exact fun d hd => List.mem_takeWhile_imp hd
                · rw [← hafter, List.takeWhile_append_dropWhile, List.cons_append,
                    List.takeWhile_append_dropWhile]
            · cases h
        · cases h
  · rintro ⟨hname, blanks, hblanks, rfl⟩
    cases key with
    | nil => cases hname
    | cons c cs =>
        have hchars := all_isNameChar_of_isName hname
        have hstop := head?_blanks hblanks (head?_equals isNameChar (by decide) rest)
        have hrun := takeWhile_append_of_stop
          (fun d hd => hchars d (List.mem_cons_of_mem _ hd)) hstop
        have hafter := takeWhile_append_of_stop hblanks
          (head?_equals isWhitespace (by decide) rest)
        rw [isName, Bool.and_eq_true] at hname
        rw [List.cons_append, splitName, if_pos hname.1, hrun.2, hafter.2, hrun.1]
        rfl

theorem afterExport_eq_some : afterExport cs = some rest ↔
    ∃ blanks : List Char, blanks ≠ [] ∧ (∀ c ∈ blanks, isWhitespace c = true) ∧
      (∀ c, rest.head? = some c → isWhitespace c = false) ∧
        cs = "export".toList ++ (blanks ++ rest) := by
  constructor
  · intro h
    rw [afterExport] at h
    split at h
    · next hexport =>
        obtain ⟨after, rfl⟩ := List.isPrefixOf_iff_prefix.mp hexport
        have hdrop : ("export".toList ++ after).drop "export".length = after := rfl
        rw [hdrop] at h
        split at h
        · next blank tail =>
            split at h
            · next hblank =>
                cases h
                refine ⟨blank :: tail.takeWhile isWhitespace, by simp, ?_, ?_, ?_⟩
                · intro d hd
                  rcases List.mem_cons.mp hd with rfl | hd
                  · exact hblank
                  · exact List.mem_takeWhile_imp hd
                · intro d hd
                  exact head?_dropWhile hd
                · rw [List.cons_append, List.takeWhile_append_dropWhile]
            · cases h
        · cases h
    · cases h
  · rintro ⟨blanks, hne, hblanks, hrest, rfl⟩
    cases blanks with
    | nil => exact absurd rfl hne
    | cons blank blanks =>
        have hexport : "export".toList.isPrefixOf
            ("export".toList ++ (blank :: blanks ++ rest)) = true :=
          List.isPrefixOf_iff_prefix.mpr (List.prefix_append _ _)
        have hdrop : ("export".toList ++ (blank :: blanks ++ rest)).drop "export".length =
            blank :: (blanks ++ rest) := rfl
        have hrun := takeWhile_append_of_stop
          (fun d hd => hblanks d (List.mem_cons_of_mem _ hd)) hrest
        rw [afterExport, if_pos hexport, hdrop]
        simp only [hblanks blank List.mem_cons_self, if_true, hrun.2]

/-- A line is not read both with and without `export`. -/
theorem splitName_eq_none_of_export (hexport : afterExport cs = some rest)
    (hname : splitName rest ≠ none) : splitName cs = none := by
  obtain ⟨⟨name, value⟩, hsplit⟩ := Option.ne_none_iff_exists'.mp hname
  obtain ⟨hisName, _, _, hrest⟩ := splitName_eq_some.mp hsplit
  obtain ⟨blanks, hne, hblanks, hstop, hcs⟩ := afterExport_eq_some.mp hexport
  cases hother : splitName cs with
  | none => rfl
  | some other =>
      obtain ⟨hotherName, otherBlanks, hotherBlanks, hotherCs⟩ := splitName_eq_some.mp hother
      have hexportStop : ∀ c, (blanks ++ rest).head? = some c → isNameChar c = false := by
        cases blanks with
        | nil => exact absurd rfl hne
        | cons blank blanks =>
            intro c hc
            cases hc
            exact not_isNameChar_of_isWhitespace (hblanks _ List.mem_cons_self)
      have hboth := (takeWhile_append_of_stop (all_isNameChar_of_isName hotherName)
        (head?_blanks hotherBlanks (head?_equals isNameChar (by decide) other.2))).2
      have hexportName : ∀ c ∈ "export".toList, isNameChar c = true :=
        List.all_eq_true.mp (by decide)
      rw [← hotherCs, hcs, (takeWhile_append_of_stop hexportName hexportStop).2] at hboth
      have hrun := (takeWhile_append_of_stop hotherBlanks
        (head?_equals isWhitespace (by decide) other.2)).2
      rw [← hboth, (takeWhile_append_of_stop hblanks hstop).2] at hrun
      -- What follows the blanks would start with a name, and with an equals sign.
      cases name with
      | nil => cases hisName
      | cons c name =>
          rw [hrest, List.cons_append, List.cons.injEq] at hrun
          rw [isName, hrun.1] at hisName
          cases hisName

/-- The line is found by its key exactly if it is read with that key. -/
theorem startsWithKey_iff (hname : isName key = true) :
    startsWithKey key cs = true ↔ ∃ rest, splitName cs = some (key, rest) := by
  rw [startsWithKey, Bool.and_eq_true, List.isPrefixOf_iff_prefix, decide_eq_true_eq]
  constructor
  · rintro ⟨⟨after, rfl⟩, hequals⟩
    rw [List.drop_left] at hequals
    cases hdrop : after.dropWhile isWhitespace with
    | nil =>
        rw [hdrop] at hequals
        cases hequals
    | cons d rest =>
        rw [hdrop] at hequals
        cases hequals
        refine ⟨rest, splitName_eq_some.mpr ⟨hname, after.takeWhile isWhitespace, ?_, ?_⟩⟩
        · exact fun c hc => List.mem_takeWhile_imp hc
        · rw [← hdrop, List.takeWhile_append_dropWhile]
  · rintro ⟨rest, hsplit⟩
    obtain ⟨_, blanks, hblanks, rfl⟩ := splitName_eq_some.mp hsplit
    refine ⟨List.prefix_append _ _, ?_⟩
    rw [List.drop_left,
      (takeWhile_append_of_stop hblanks (head?_equals isWhitespace (by decide) rest)).2]
    rfl

theorem namesKey_iff (hname : isName key = true) :
    namesKey key line = true ↔ ∃ rest, splitLine line = some (key, rest) := by
  simp only [namesKey, splitLine, Bool.or_eq_true, startsWithKey_iff hname]
  generalize line.dropWhile isWhitespace = cs
  cases hexport : afterExport cs with
  | none => simp
  | some after =>
      simp only [Option.any_some, Option.bind_some, startsWithKey_iff hname]
      cases hsplit : splitName after with
      | none => simp
      | some found =>
          have hnone := splitName_eq_none_of_export hexport (by simp [hsplit])
          simp [hnone]

/-- A rendered line is read with its key, and what follows the equals sign. -/
theorem splitLine_renderLine (hname : isName key = true) (value : List Char) :
    splitLine (renderLine key value) = some (key, value) := by
  have hblanks : (renderLine key value).dropWhile isWhitespace = renderLine key value := by
    cases key with
    | nil => cases hname
    | cons c key =>
        rw [renderLine, List.cons_append, List.dropWhile_cons_of_neg]
        rw [not_isWhitespace_of_isNameChar
          (all_isNameChar_of_isName hname _ List.mem_cons_self)]
        decide
  have hsplit : splitName (renderLine key value) = some (key, value) :=
    splitName_eq_some.mpr ⟨hname, [], by simp, rfl⟩
  rw [splitLine, hblanks, hsplit]
  cases hexport : afterExport (renderLine key value) with
  | none => rfl
  | some after =>
      rw [Option.bind_some]
      cases hafter : splitName after with
      | none => rfl
      | some found =>
          have hnone := splitName_eq_none_of_export hexport (by simp [hafter])
          rw [hsplit] at hnone
          cases hnone

/-! ## Values that read back -/

/-- A value that its line gives back. -/
def readsBack (value : List Char) : Bool :=
  trim value = value && !value.any isLineTerminator &&
    !(isQuoted '"' value || isQuoted '\'' value)

theorem length_trim_le (value : List Char) : (trim value).length ≤ value.length := by
  rw [trim, stripEnds, List.length_reverse]
  refine le_trans (List.dropWhile_sublist _).length_le ?_
  rw [List.length_reverse]
  exact (List.dropWhile_sublist _).length_le

theorem unquote_trim_eq_iff :
    unquote (trim value) = value ↔
      trim value = value ∧ (isQuoted '"' value || isQuoted '\'' value) = false := by
  constructor
  · intro h
    rw [unquote] at h
    split at h
    · next hquoted =>
        -- A value without its quotes is shorter.
        have hlength : 2 ≤ (trim value).length := by
          simp only [isQuoted, Bool.or_eq_true, Bool.and_eq_true, decide_eq_true_eq] at hquoted
          rcases hquoted with hquoted | hquoted
          · exact hquoted.2
          · exact hquoted.2
        have hle := length_trim_le value
        have hsame := congrArg List.length h
        rw [List.length_dropLast, List.length_tail] at hsame
        omega
    · next hplain =>
        rw [h, Bool.not_eq_true] at hplain
        exact ⟨h, hplain⟩
  · rintro ⟨htrim, hplain⟩
    rw [htrim, unquote, hplain]
    rfl

theorem parseLine_renderLine (hname : isName key = true) (value : List Char) :
    parseLine (renderLine key value) =
      if (trim value).any isLineTerminator then none else some (key, unquote (trim value)) := by
  rw [parseLine, splitLine_renderLine hname, Option.bind_some]

/-- A line gives its value back exactly if the value reads back. -/
theorem parseLine_renderLine_eq_iff (hname : isName key = true) :
    parseLine (renderLine key value) = some (key, value) ↔ readsBack value = true := by
  rw [parseLine_renderLine hname, readsBack]
  simp only [Bool.and_eq_true, decide_eq_true_eq, Bool.not_eq_true']
  constructor
  · intro h
    split at h
    · cases h
    · next hterminator =>
        rw [Option.some.injEq, Prod.mk.injEq] at h
        obtain ⟨htrim, hplain⟩ := unquote_trim_eq_iff.mp h.2
        rw [htrim, Bool.not_eq_true] at hterminator
        exact ⟨⟨htrim, hterminator⟩, hplain⟩
  · rintro ⟨⟨htrim, hterminator⟩, hplain⟩
    rw [if_neg (by rw [htrim, hterminator]; decide), unquote_trim_eq_iff.mpr ⟨htrim, hplain⟩]

theorem splitLine_of_parseLine {assigned : List Char × List Char}
    (h : parseLine line = some assigned) : ∃ rest, splitLine line = some (assigned.1, rest) := by
  obtain ⟨⟨found, rest⟩, hsplit, hvalue⟩ := Option.bind_eq_some_iff.mp h
  dsimp only at hvalue
  split at hvalue
  · cases hvalue
  · cases hvalue
    exact ⟨rest, hsplit⟩

/-- A line that is not found by a key does not assign it. -/
theorem fst_ne_of_not_namesKey (hname : isName key = true) (hline : namesKey key line = false)
    {assigned : List Char × List Char} (h : parseLine line = some assigned) :
    assigned.1 ≠ key := by
  rintro rfl
  rw [(namesKey_iff hname).mpr (splitLine_of_parseLine h)] at hline
  cases hline

/-- A line that is found by a key assigns no other. -/
theorem fst_eq_of_namesKey (hname : isName key = true) (hline : namesKey key line = true)
    {assigned : List Char × List Char} (h : parseLine line = some assigned) :
    assigned.1 = key := by
  obtain ⟨rest, hrest⟩ := splitLine_of_parseLine h
  obtain ⟨rest', hrest'⟩ := (namesKey_iff hname).mp hline
  rw [hrest] at hrest'
  cases hrest'
  rfl

/-! ## Lines -/

theorem Values.get_append (first second : Values) (key : List Char) :
    (first ++ second).get key = (second.get key).or (first.get key) := by
  rw [Values.get, List.reverse_append, List.lookup_append]
  rfl

theorem Values.get_eq_none {values : Values} (h : ∀ entry ∈ values, entry.1 ≠ key) :
    values.get key = none := by
  rw [Values.get, List.lookup_eq_none_iff]
  intro entry hentry
  have hne := h entry (List.mem_reverse.mp hentry)
  simpa using Ne.symm hne

theorem parseLines_append (first second : List (List Char)) :
    parseLines (first ++ second) = parseLines first ++ parseLines second := by
  rw [parseLines, List.filterMap_append, List.filter_append]
  rfl

theorem mem_parseLines {lines : List (List Char)} {entry : List Char × List Char} :
    entry ∈ parseLines lines ↔
      (∃ line ∈ lines, parseLine line = some entry) ∧ entry.1 ≠ prototype := by
  rw [parseLines, List.mem_filter, List.mem_filterMap, decide_eq_true_eq]

theorem fst_of_renderLine (hname : isName key = true) {assigned : List Char × List Char}
    (hparse : parseLine (renderLine key value) = some assigned) : assigned.1 = key := by
  obtain ⟨rest, hrest⟩ := splitLine_of_parseLine hparse
  rw [splitLine_renderLine hname] at hrest
  cases hrest
  rfl

/-- What one written line assigns to its key. -/
theorem get_parseLines_renderLine (hname : isName key = true) (value : List Char) :
    (parseLines [renderLine key value]).get key =
      if key = prototype then none
      else (parseLine (renderLine key value)).map Prod.snd := by
  rw [parseLines, List.filterMap_cons, List.filterMap_nil]
  cases hparse : parseLine (renderLine key value) with
  | none => simp [Values.get]
  | some assigned =>
      obtain ⟨found, given⟩ := assigned
      obtain rfl : found = key := fst_of_renderLine hname hparse
      by_cases hprototype : found = prototype
      · simp [hprototype, Values.get]
      · simp [hprototype, Values.get]

/-- The lines after the first that is found by the key. -/
def linesAfter (key : List Char) (lines : List (List Char)) : List (List Char) :=
  (lines.dropWhile fun line => !namesKey key line).tail

/-- What putting a value in does to the lines: at most one, found by the key, is replaced. -/
structure Placed (lines placed : List (List Char)) (key line : List Char)
    (before replaced after : List (List Char)) : Prop where
  lines : lines = before ++ (replaced ++ after)
  placed : placed = before ++ line :: after
  one : replaced.length ≤ 1
  replaced : ∀ old ∈ replaced, namesKey key old = true

/-- The value is put in place of the first line that is found by the key, or else at the end, before
the last line if that is empty. -/
theorem upsertLines_placed (lines : List (List Char)) (key value : List Char) :
    ∃ before replaced after,
      Placed lines (upsertLines lines key value) key (renderLine key value) before replaced after ∧
        (∀ old ∈ before, namesKey key old = false) ∧
          parseLines after = parseLines (linesAfter key lines) := by
  have hempty : parseLines [[]] = [] := by decide
  unfold upsertLines
  cases hfound : lines.findIdx? (namesKey key) with
  | some index =>
      obtain ⟨hlt, hnames, hbefore⟩ := List.findIdx?_eq_some_iff_getElem.mp hfound
      have hlines : lines = lines.take index ++ ([lines[index]] ++ lines.drop (index + 1)) := by
        rw [List.singleton_append, ← List.drop_eq_getElem_cons hlt, List.take_append_drop]
      have hunnamed : ∀ old ∈ lines.take index, namesKey key old = false := by
        intro old hold
        obtain ⟨i, hi, rfl⟩ := List.mem_take_iff_getElem.mp hold
        have hnot := hbefore i (by omega)
        simpa using hnot
      refine ⟨lines.take index, [lines[index]], lines.drop (index + 1),
        ⟨hlines, ?_, le_rfl, ?_⟩, hunnamed, ?_⟩
      · exact List.set_eq_take_append_cons_drop .. |>.trans (if_pos hlt)
      · intro old hold
        rw [List.mem_singleton.mp hold]
        exact hnames
      · have hafter : linesAfter key lines = lines.drop (index + 1) := by
          conv_lhs => rw [linesAfter, hlines]
          rw [List.dropWhile_append_of_pos (by simpa using hunnamed), List.singleton_append,
            List.dropWhile_cons_of_neg (by simp [hnames]), List.tail_cons]
        rw [hafter]
  | none =>
      have hnone : ∀ old ∈ lines, namesKey key old = false := by
        simpa [List.findIdx?_eq_none_iff] using hfound
      have hafter : linesAfter key lines = [] := by
        rw [linesAfter, List.dropWhile_eq_nil_iff.mpr]
        · rfl
        · intro old hold
          rw [hnone old hold]
          rfl
      rw [hafter]
      by_cases hlast : lines.getLast? = some []
      · obtain ⟨before, rfl⟩ := List.getLast?_eq_some_iff.mp hlast
        refine ⟨before, [], [[]], ⟨rfl, ?_, by decide, by simp⟩, ?_, hempty⟩
        · simp [hlast]
        · exact fun old hold => hnone old (List.mem_append_left _ hold)
      · refine ⟨lines, [], [], ⟨by simp, ?_, by decide, by simp⟩, hnone, rfl⟩
        simp [hlast]

/-! ## Putting a value in -/

/-- No line of a text holds a line feed. -/
theorem not_mem_of_mem_splitOn {raw : List Char} (hline : line ∈ raw.splitOn '\n') :
    '\n' ∉ line := by
  induction raw generalizing line with
  | nil =>
      rw [List.splitOn_nil, List.mem_singleton] at hline
      simp [hline]
  | cons c raw ih =>
      rw [List.splitOn_cons_eq_if_modifyHead] at hline
      split at hline
      · rcases List.mem_cons.mp hline with rfl | hline
        · simp
        · exact ih hline
      · next hc =>
          obtain ⟨first, lines, hlines⟩ := List.exists_cons_of_ne_nil (List.splitOn_ne_nil '\n' raw)
          rw [hlines, List.modifyHead_cons] at hline
          rcases List.mem_cons.mp hline with rfl | hline
          · rw [List.mem_cons, not_or]
            refine ⟨fun hnewline => hc (by simp [← hnewline]), ih ?_⟩
            rw [hlines]
            exact List.mem_cons_self
          · apply ih
            rw [hlines]
            exact List.mem_cons_of_mem _ hline

theorem not_mem_renderLine (hname : isName key = true) (hvalue : '\n' ∉ value) :
    '\n' ∉ renderLine key value := by
  rw [renderLine, List.mem_append, List.mem_cons, not_or, not_or]
  refine ⟨?_, by decide, hvalue⟩
  intro hkey
  have hchar := all_isNameChar_of_isName hname _ hkey
  cases hchar

/-- Lines that were joined are read again. -/
theorem splitOn_upsertEnvFileValue (hname : isName key = true) (hvalue : '\n' ∉ value)
    (raw : List Char) :
    (upsertEnvFileValue raw key value).splitOn '\n' =
      upsertLines (raw.splitOn '\n') key value := by
  obtain ⟨before, replaced, after, hplaced, _⟩ :=
    upsertLines_placed (raw.splitOn '\n') key value
  rw [upsertEnvFileValue, List.splitOn_intercalate]
  · intro line hline
    have hold : ∀ old ∈ before ++ (replaced ++ after), '\n' ∉ old := by
      rw [← hplaced.lines]
      exact fun old => not_mem_of_mem_splitOn
    rw [hplaced.placed, List.mem_append, List.mem_cons] at hline
    rcases hline with hline | rfl | hline
    · exact hold line (List.mem_append_left _ hline)
    · exact not_mem_renderLine hname hvalue
    · exact hold line (List.mem_append_right _ (List.mem_append_right _ hline))
  · rw [hplaced.placed]
    simp

/-- What a file gives back after a value was put in: the value of the last line that assigns the key
after the one that was written, or else what that line gives back. -/
def keepsValue (raw key value : List Char) : Bool :=
  match (parseLines (linesAfter key (raw.splitOn '\n'))).get key with
  | some later => later = value
  | none => key ≠ prototype && readsBack value

theorem get_upsert_iff (hname : isName key = true) (hvalue : '\n' ∉ value) (raw : List Char) :
    (∀ other, (parseEnvFile (upsertEnvFileValue raw key value)).get other =
      if other = key then some value else (parseEnvFile raw).get other) ↔
        keepsValue raw key value = true := by
  obtain ⟨before, replaced, after, hplaced, hbefore, hafter⟩ :=
    upsertLines_placed (raw.splitOn '\n') key value
  have hsplit : parseEnvFile (upsertEnvFileValue raw key value) =
      parseLines before ++ (parseLines [renderLine key value] ++ parseLines after) := by
    rw [parseEnvFile, splitOn_upsertEnvFileValue hname hvalue, hplaced.placed, parseLines_append,
      ← List.singleton_append, parseLines_append]
  have hraw : parseEnvFile raw =
      parseLines before ++ (parseLines replaced ++ parseLines after) := by
    rw [parseEnvFile, hplaced.lines, parseLines_append, parseLines_append]
  have hbeforeKey : (parseLines before).get key = none := by
    apply Values.get_eq_none
    intro entry hentry
    obtain ⟨⟨line, hline, hparse⟩, _⟩ := mem_parseLines.mp hentry
    exact fst_ne_of_not_namesKey hname (hbefore line hline) hparse
  have hothers : ∀ other, other ≠ key →
      (parseLines replaced).get other = none ∧
        (parseLines [renderLine key value]).get other = none := by
    intro other hother
    constructor
    · apply Values.get_eq_none
      intro entry hentry
      obtain ⟨⟨line, hline, hparse⟩, _⟩ := mem_parseLines.mp hentry
      rw [fst_eq_of_namesKey hname (hplaced.replaced line hline) hparse]
      exact Ne.symm hother
    · apply Values.get_eq_none
      intro entry hentry
      obtain ⟨⟨line, hline, hparse⟩, _⟩ := mem_parseLines.mp hentry
      obtain rfl := List.mem_singleton.mp hline
      rw [fst_of_renderLine hname hparse]
      exact Ne.symm hother
  have hkey : (parseEnvFile (upsertEnvFileValue raw key value)).get key = some value ↔
      keepsValue raw key value = true := by
    rw [hsplit, Values.get_append, Values.get_append, hbeforeKey, hafter, Option.or_none,
      keepsValue, get_parseLines_renderLine hname]
    cases (parseLines (linesAfter key (raw.splitOn '\n'))).get key with
    | some later => simp
    | none =>
        rw [Option.none_or]
        by_cases hprototype : key = prototype
        · simp [hprototype]
        · rw [if_neg hprototype, Option.map_eq_some_iff]
          simp only [hprototype, ne_eq, not_false_eq_true, decide_true, Bool.true_and,
            ← parseLine_renderLine_eq_iff hname]
          constructor
          · rintro ⟨⟨found, given⟩, hparse, hgiven⟩
            have hfound : found = key := fst_of_renderLine hname hparse
            rw [hparse, hfound, ← hgiven]
          · intro hparse
            exact ⟨_, hparse, rfl⟩
  rw [← hkey]
  constructor
  · intro hall
    rw [hall key, if_pos rfl]
  · intro hsome other
    by_cases hother : other = key
    · rw [if_pos hother, hother, hsome]
    · obtain ⟨hreplaced, hline⟩ := hothers other hother
      rw [if_neg hother, hsplit, hraw, Values.get_append, Values.get_append, Values.get_append,
        Values.get_append, hreplaced, hline]

/-- The lines of the file but the one that the value was put in, which has replaced one that is found
by the key, or none. -/
def OtherLinesKept (raw key value : List Char) : Prop :=
  ∃ before replaced after, Placed (raw.splitOn '\n')
    ((upsertEnvFileValue raw key value).splitOn '\n') key (renderLine key value) before replaced after

theorem otherLinesKept (hname : isName key = true) (hvalue : '\n' ∉ value) (raw : List Char) :
    OtherLinesKept raw key value := by
  obtain ⟨before, replaced, after, hplaced, _⟩ :=
    upsertLines_placed (raw.splitOn '\n') key value
  refine ⟨before, replaced, after, ?_⟩
  rw [splitOn_upsertEnvFileValue hname hvalue]
  exact hplaced

/-! ## Rendering -/

/-- Names of their own, none of which is the prototype's. -/
structure WellNamed (values : Values) : Prop where
  names : ∀ entry ∈ values, isName entry.1 = true
  own : ∀ entry ∈ values, entry.1 ≠ prototype
  distinct : (values.map Prod.fst).Nodup

/-- The rendered file, line by line. -/
theorem parseEnvFile_renderValues {values : Values} (hnamed : WellNamed values)
    (hlines : ∀ entry ∈ values, '\n' ∉ entry.2) :
    parseEnvFile (renderValues values) =
      parseLines (values.map fun entry => renderLine entry.1 entry.2) := by
  have hpreamble : parseLines preamble = [] := by decide +kernel
  have hend : parseLines [[]] = [] := by decide
  rw [parseEnvFile, renderValues, List.splitOn_intercalate, parseLines_append, parseLines_append,
    hpreamble, hend, List.nil_append, List.append_nil]
  · intro line hline
    rw [List.mem_append, List.mem_append] at hline
    rcases hline with (hline | hline) | hline
    · have hnone : ∀ line ∈ preamble, '\n' ∉ line := by decide +kernel
      exact hnone line hline
    · obtain ⟨entry, hentry, rfl⟩ := List.mem_map.mp hline
      exact not_mem_renderLine (hnamed.names entry hentry) (hlines entry hentry)
    · rw [List.mem_singleton.mp hline]
      simp
  · simp

theorem parseLines_cons (line : List Char) (lines : List (List Char)) :
    parseLines (line :: lines) = parseLines [line] ++ parseLines lines :=
  parseLines_append [line] lines

/-- A key of its own stands in one entry only. -/
theorem WellNamed.apart {before after : Values} {entry : List Char × List Char}
    (hnamed : WellNamed (before ++ entry :: after)) :
    ∀ other ∈ before ++ after, other.1 ≠ entry.1 := by
  have hdistinct := hnamed.distinct
  rw [List.map_append, List.map_cons, List.nodup_middle, List.nodup_cons, ← List.map_append]
    at hdistinct
  intro other hother hsame
  exact hdistinct.1 (List.mem_map.mpr ⟨other, hother, hsame⟩)

theorem WellNamed.get_eq {values : Values} (hnamed : WellNamed values)
    {entry : List Char × List Char} (hentry : entry ∈ values) :
    values.get entry.1 = some entry.2 := by
  obtain ⟨before, after, rfl⟩ := List.append_of_mem hentry
  have hafter : Values.get after entry.1 = none :=
    Values.get_eq_none fun other hother =>
      hnamed.apart other (List.mem_append_right _ hother)
  have hone : Values.get [(entry.1, entry.2)] entry.1 = some entry.2 := by
    rw [Values.get, List.reverse_singleton, List.lookup_cons_self]
  rw [Values.get_append, ← List.singleton_append, Values.get_append, hafter, hone]
  rfl

/-- What a list of rendered lines assigns to a key of its own. -/
theorem get_parseLines_map {values : Values} (hnamed : WellNamed values)
    {entry : List Char × List Char} (hentry : entry ∈ values) :
    (parseLines (values.map fun entry => renderLine entry.1 entry.2)).get entry.1 =
      (parseLine (renderLine entry.1 entry.2)).map Prod.snd := by
  obtain ⟨before, after, rfl⟩ := List.append_of_mem hentry
  have hnone : ∀ others : Values, (∀ other ∈ others, other ∈ before ++ after) →
      (parseLines (others.map fun entry => renderLine entry.1 entry.2)).get entry.1 = none := by
    intro others hothers
    apply Values.get_eq_none
    intro assigned hassigned
    obtain ⟨⟨line, hline, hparse⟩, _⟩ := mem_parseLines.mp hassigned
    obtain ⟨other, hother, rfl⟩ := List.mem_map.mp hline
    have hmem := hothers other hother
    have hname := hnamed.names other (by
      rcases List.mem_append.mp hmem with hmem | hmem
      · exact List.mem_append_left _ hmem
      · exact List.mem_append_right _ (List.mem_cons_of_mem _ hmem))
    rw [fst_of_renderLine hname hparse]
    exact hnamed.apart other hmem
  rw [List.map_append, List.map_cons, parseLines_append, parseLines_cons, Values.get_append,
    Values.get_append, hnone before fun other hother => List.mem_append_left _ hother,
    hnone after fun other hother => List.mem_append_right _ hother,
    get_parseLines_renderLine (hnamed.names entry hentry), if_neg (hnamed.own entry hentry)]
  simp

/-- A rendered file gives its values back exactly if each of them reads back. -/
theorem renderValues_reads_iff {values : Values} (hnamed : WellNamed values)
    (hlines : ∀ entry ∈ values, '\n' ∉ entry.2) :
    (∀ key, (parseEnvFile (renderValues values)).get key = values.get key) ↔
      ∀ entry ∈ values, readsBack entry.2 = true := by
  rw [parseEnvFile_renderValues hnamed hlines]
  constructor
  · intro hall entry hentry
    have hsame := hall entry.1
    rw [get_parseLines_map hnamed hentry, hnamed.get_eq hentry, Option.map_eq_some_iff] at hsame
    obtain ⟨⟨found, given⟩, hparse, hgiven⟩ := hsame
    have hname := hnamed.names entry hentry
    have hfound : found = entry.1 := fst_of_renderLine hname hparse
    rw [← parseLine_renderLine_eq_iff hname, hparse, hfound, ← hgiven]
  · intro hall key
    have hparse : ∀ entry ∈ values,
        (parseLine ∘ fun entry => renderLine entry.1 entry.2) entry = some entry :=
      fun entry hentry => (parseLine_renderLine_eq_iff (hnamed.names entry hentry)).mpr
        (hall entry hentry)
    have hsame : parseLines (values.map fun entry => renderLine entry.1 entry.2) = values := by
      rw [parseLines, List.filterMap_map, List.filterMap_congr hparse, List.filterMap_some,
        List.filter_eq_self]
      intro entry hentry
      exact decide_eq_true (hnamed.own entry hentry)
    rw [hsame]

/-- Every key that may be rendered. -/
def platformKeys : List String :=
  ["NODE_ENV", "EVELAND_PUBLIC_ORIGIN", "EVELAND_AGENT_BASE_DOMAINS", "DATABASE_URL",
    "EVELAND_WORKFLOW_WORLD_URL"] ++ ["EVELAND_WORKFLOW_WORLD_BOOTSTRAP_URL"] ++
    ["WORKFLOW_DISPATCHER_ACTIVATION_API_URL", "WORKFLOW_DISPATCHER_ACTIVATION_TOKEN",
      "APP_SECRET_KEY", "BETTER_AUTH_SECRET", "EVELAND_ADMIN_EMAIL", "EVELAND_ADMIN_PASSWORD",
      "EVELAND_DATA_DIR", "EVELAND_OTLP_SERVICE_TOKEN", "EVELAND_GATEWAY_SERVICE_TOKEN",
      "EVELAND_GATEWAY_AFFINITY_SECRET", "EVELAND_SCHEDULER_RUNTIME_SECRET",
      "EVELAND_SCHEDULER_DISPATCH_SECRET", "EVELAND_SCHEDULER_REDEEM_URL", "EVELAND_RUNTIME"] ++
    ["ANTHROPIC_API_KEY"] ++ ["OPENAI_API_KEY"]

theorem map_fst_named (entries : List (String × List Char)) :
    (entries.map platformValues.named).map Prod.fst = (entries.map Prod.fst).map String.toList := by
  rw [List.map_map, List.map_map]
  rfl

theorem platformValues_keys (derive : Derivations) (platform : HostPlatform)
    (applianceRoot : List Char) (inputs : BootstrapInputs) (drawn : Drawn) :
    List.Sublist ((platformValues derive platform applianceRoot inputs drawn).map Prod.fst)
      (platformKeys.map String.toList) := by
  have hoptional : ∀ (key : String) (value : Option (List Char)),
      List.Sublist ((platformValues.optional key value).map Prod.fst)
        ([key].map String.toList) := by
    intro key value
    unfold platformValues.optional
    split
    · exact List.Sublist.refl _
    · exact List.nil_sublist _
  simp only [platformValues, platformKeys, List.map_append, map_fst_named]
  refine (((List.Sublist.append ?_ ?_).append ?_).append (hoptional _ _)).append (hoptional _ _)
  · exact List.Sublist.refl _
  · split
    · simp only [List.map_cons, List.map_nil, platformValues.named]
      exact List.Sublist.refl _
    · exact List.nil_sublist _
  · exact List.Sublist.refl _

theorem platformValues_wellNamed (derive : Derivations) (platform : HostPlatform)
    (applianceRoot : List Char) (inputs : BootstrapInputs) (drawn : Drawn) :
    WellNamed (platformValues derive platform applianceRoot inputs drawn) := by
  have hkeys := platformValues_keys derive platform applianceRoot inputs drawn
  have hall : ∀ key ∈ platformKeys.map String.toList, isName key = true ∧ key ≠ prototype := by
    decide +kernel
  have hnodup : (platformKeys.map String.toList).Nodup := by decide +kernel
  have hmem : ∀ entry ∈ platformValues derive platform applianceRoot inputs drawn,
      entry.1 ∈ platformKeys.map String.toList := by
    intro entry hentry
    exact hkeys.subset (List.mem_map_of_mem hentry)
  exact ⟨fun entry hentry => (hall _ (hmem entry hentry)).1,
    fun entry hentry => (hall _ (hmem entry hentry)).2, hkeys.nodup hnodup⟩

/-! ## The result -/

/-- **The env file gives back what it was given**: a rendered one exactly if every value reads back,
and one that a value was put into exactly if the last later line for the key has that value, or there
is none and the value reads back. The other lines stay as they are. -/
theorem envFile_readsBack_iff (derive : Derivations) (platform : HostPlatform)
    (applianceRoot : List Char) (inputs : BootstrapInputs) (drawn : Drawn)
    (hlines : ∀ entry ∈ (renderPlatformEnv derive platform applianceRoot inputs drawn).values,
      '\n' ∉ entry.2)
    (raw key value : List Char) (hname : isName key = true) (hvalue : '\n' ∉ value) :
    ((∀ other, (parseEnvFile
        (renderPlatformEnv derive platform applianceRoot inputs drawn).content).get other =
          (renderPlatformEnv derive platform applianceRoot inputs drawn).values.get other) ↔
        ∀ entry ∈ (renderPlatformEnv derive platform applianceRoot inputs drawn).values,
          readsBack entry.2 = true) ∧
      ((∀ other, (parseEnvFile (upsertEnvFileValue raw key value)).get other =
          if other = key then some value else (parseEnvFile raw).get other) ↔
        keepsValue raw key value = true) ∧
      OtherLinesKept raw key value :=
  ⟨renderValues_reads_iff (platformValues_wellNamed derive platform applianceRoot inputs drawn)
    hlines, get_upsert_iff hname hvalue raw, otherLinesKept hname hvalue raw⟩

end

/-! ## Two files -/

/-- What is derived for an install at `/opt/eveland` that is reached on `localhost`. -/
def localDerivations : Derivations where
  hostname _ := "localhost".toList
  deriveWorkflowWorldUrl databaseUrl := databaseUrl ++ "_workflow".toList
  joinData applianceRoot := applianceRoot ++ "/data".toList

def localInputs (adminPassword : String) : BootstrapInputs where
  publicOrigin := "http://localhost:17300".toList
  adminEmail := "admin@example.com".toList
  adminPassword := adminPassword.toList
  databaseUrl := none
  anthropicApiKey := none
  openaiApiKey := some "sk-key".toList

/-- Seven secrets. -/
def localDrawn : Drawn where
  gatewayServiceToken := "a1".toList
  appSecretKey := "b2".toList
  authSecret := "c3".toList
  otlpServiceToken := "d4".toList
  affinitySecret := "e5".toList
  schedulerRuntimeSecret := "f6".toList
  schedulerDispatchSecret := "a7".toList

/-- An install with a plain password, and an update of its revision. -/
theorem envFile_readsBack_localInstall :
    (∀ other, (parseEnvFile (renderPlatformEnv localDerivations .linux "/opt/eveland".toList
        (localInputs "correct horse") localDrawn).content).get other =
          (renderPlatformEnv localDerivations .linux "/opt/eveland".toList
            (localInputs "correct horse") localDrawn).values.get other) ∧
      ∀ other, (parseEnvFile (upsertEnvFileValue "# Revision\nEVELAND_REVISION='abc'".toList
          "EVELAND_REVISION".toList "def".toList)).get other =
        if other = "EVELAND_REVISION".toList then some "def".toList
        else (parseEnvFile "# Revision\nEVELAND_REVISION='abc'".toList).get other := by
  have hlines : ∀ entry ∈ (renderPlatformEnv localDerivations .linux "/opt/eveland".toList
      (localInputs "correct horse") localDrawn).values, '\n' ∉ entry.2 := by decide +kernel
  have hreads : ∀ entry ∈ (renderPlatformEnv localDerivations .linux "/opt/eveland".toList
      (localInputs "correct horse") localDrawn).values, readsBack entry.2 = true := by
    decide +kernel
  obtain ⟨hrendered, hput, _⟩ := envFile_readsBack_iff localDerivations .linux
    "/opt/eveland".toList (localInputs "correct horse") localDrawn hlines
    "# Revision\nEVELAND_REVISION='abc'".toList "EVELAND_REVISION".toList "def".toList
    (by decide +kernel) (by decide +kernel)
  exact ⟨hrendered.mpr hreads, hput.mpr (by decide +kernel)⟩

/-- A password in quotes loses them, and an update of a key that stands twice in the file leaves the
second line in force. -/
theorem not_readsBack_quoted_duplicate :
    (¬ ∀ other, (parseEnvFile (renderPlatformEnv localDerivations .linux "/opt/eveland".toList
        (localInputs "\"quoted-password\"") localDrawn).content).get other =
          (renderPlatformEnv localDerivations .linux "/opt/eveland".toList
            (localInputs "\"quoted-password\"") localDrawn).values.get other) ∧
      ¬ ∀ other, (parseEnvFile (upsertEnvFileValue
          "EVELAND_REVISION=abc\nEVELAND_REVISION=def\n".toList "EVELAND_REVISION".toList
          "new".toList)).get other =
        if other = "EVELAND_REVISION".toList then some "new".toList
        else (parseEnvFile "EVELAND_REVISION=abc\nEVELAND_REVISION=def\n".toList).get other := by
  constructor
  · intro hall
    have hlines : ∀ entry ∈ (renderPlatformEnv localDerivations .linux "/opt/eveland".toList
        (localInputs "\"quoted-password\"") localDrawn).values, '\n' ∉ entry.2 := by
      decide +kernel
    have hreads := (renderValues_reads_iff (platformValues_wellNamed ..) hlines).mp hall
    exact absurd (hreads ("EVELAND_ADMIN_PASSWORD".toList, "\"quoted-password\"".toList)
      (by decide +kernel)) (by decide +kernel)
  · intro hall
    exact absurd (hall "EVELAND_REVISION".toList) (by decide +kernel)

end Eveland.EnvFile
