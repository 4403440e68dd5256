import Mathlib.Algebra.Field.Rat
import Mathlib.Algebra.GroupWithZero.Nat
import Mathlib.Data.List.Infix

/-!
# Text

Text is a list of characters. `split sep` splits at the occurrences of a separator, from left to
right, as `str.split(sep)` of Python does; a separator whose first character does not occur again
in it cannot overlap itself, so joined pieces without the separator are split into what they were
(`split_append`). `cut` removes the first character of each occurrence of a word only, and
`isSplit_cut_iff` says when that is a split. `float` reads a numeral as `float(s)` of Python does.
-/

namespace Text

section
variable {α : Type _}

/-! ## Substrings -/

/-- A word without `c` that starts a text starts the part before a `c`. -/
theorem prefix_of_append_cons {w a b : List α} {c : α} (hc : c ∉ w) (h : w <+: a ++ c :: b) :
    w <+: a := by
  induction a generalizing w with
  | nil =>
    obtain rfl | ⟨t, rfl, -⟩ := List.prefix_cons_iff.1 h
    · exact List.nil_prefix
    · exact absurd List.mem_cons_self hc
  | cons d a ih =>
    obtain rfl | ⟨t, rfl, ht⟩ := List.prefix_cons_iff.1 h
    · exact List.nil_prefix
    · exact List.cons_prefix_cons.2 ⟨rfl, ih (fun hmem => hc (List.mem_cons_of_mem d hmem)) ht⟩

/-- A word without `c` that occurs in two parts joined by `c` occurs in one of them. -/
theorem infix_of_append_cons {w a b : List α} {c : α} (hc : c ∉ w) (h : w <:+: a ++ c :: b) :
    w <:+: a ∨ w <:+: b := by
  induction a with
  | nil =>
    rcases List.infix_cons_iff.1 h with hpre | hin
    · exact .inl (prefix_of_append_cons (a := []) hc hpre).isInfix
    · exact .inr hin
  | cons d a ih =>
    rcases List.infix_cons_iff.1 h with hpre | hin
    · exact .inl (prefix_of_append_cons (a := d :: a) hc hpre).isInfix
    · exact (ih hin).imp_left fun hin => List.infix_cons_iff.2 (.inr hin)

/-- Lines, each with `c` after it. -/
def unlines (c : α) (ls : List (List α)) : List α := ls.flatMap (· ++ [c])

@[simp] theorem unlines_nil (c : α) : unlines c [] = [] := rfl

@[simp] theorem unlines_cons (c : α) (l : List α) (ls : List (List α)) :
    unlines c (l :: ls) = l ++ c :: unlines c ls := by
  simp [unlines]

@[simp] theorem unlines_append (c : α) (ls ls' : List (List α)) :
    unlines c (ls ++ ls') = unlines c ls ++ unlines c ls' := List.flatMap_append

/-- A word without `c` that occurs in lines occurs in one of them. -/
theorem infix_of_unlines {w t : List α} {c : α} {ls : List (List α)} (hc : c ∉ w)
    (h : w <:+: unlines c ls ++ t) : (∃ l ∈ ls, w <:+: l) ∨ w <:+: t := by
  induction ls with
  | nil => exact .inr h
  | cons l ls ih =>
    rw [unlines_cons, List.append_assoc, List.cons_append] at h
    rcases infix_of_append_cons hc h with hl | hls
    · exact .inl ⟨l, List.mem_cons_self, hl⟩
    · exact (ih hls).imp_left fun ⟨l', hmem, hl'⟩ => ⟨l', List.mem_cons_of_mem l hmem, hl'⟩

/-- A separator that does not overlap itself starts nowhere in a piece that does not contain it. -/
theorem not_prefix_of_piece {s : α} {ss a cs : List α} (hs : s ∉ ss) (ha : ¬ s :: ss <:+: a)
    (u v : List α) (hv : v ≠ []) (huv : u ++ v = a) : ¬ s :: ss <+: v ++ (s :: ss ++ cs) := by
  rintro ⟨t, ht⟩
  rcases List.append_eq_append_iff.1 ht with ⟨w, rfl, -⟩ | ⟨w, h, hw⟩
  · exact ha ⟨u, w, by rw [List.append_assoc, huv]⟩
  · -- the separator would start again in its own tail
    cases v with
    | nil => exact hv rfl
    | cons d v =>
      obtain ⟨-, rfl⟩ := List.cons.inj h
      cases w with
      | nil =>
        rw [List.append_nil] at h
        exact ha ⟨u, [], by rw [List.append_nil, h, huv]⟩
      | cons e w =>
        obtain ⟨rfl, -⟩ := List.cons.inj hw
        exact hs (List.mem_append_right v List.mem_cons_self)

/-! ## Splitting at a separator -/

variable [DecidableEq α]

/-- The pieces of a text whose first `skip` characters are the rest of a separator, where the
characters `acc`, last first, are already in the first piece. -/
def splitFrom (sep : List α) : Nat → List α → List α → List (List α)
  | _, acc, [] => [acc.reverse]
  | skip + 1, acc, _ :: cs => splitFrom sep skip acc cs
  | 0, acc, c :: cs =>
    if sep <+: c :: cs then acc.reverse :: splitFrom sep (sep.length - 1) [] cs
    else splitFrom sep 0 (c :: acc) cs

/-- The pieces of a text between the occurrences of a separator. -/
def split (sep cs : List α) : List (List α) := splitFrom sep 0 [] cs

/-- The rest of a separator is skipped. -/
theorem splitFrom_append (sep w cs acc : List α) :
    splitFrom sep w.length acc (w ++ cs) = splitFrom sep 0 acc cs := by
  induction w with
  | nil => rfl
  | cons c w ih => exact ih

/-- Characters at which no separator starts go into the piece. -/
theorem splitFrom_piece (sep a cs acc : List α)
    (h : ∀ u v, v ≠ [] → u ++ v = a → ¬ sep <+: v ++ cs) :
    splitFrom sep 0 acc (a ++ cs) = splitFrom sep 0 (a.reverse ++ acc) cs := by
  induction a generalizing acc with
  | nil => rfl
  | cons c a ih =>
    have hc : ¬ sep <+: c :: (a ++ cs) := h [] (c :: a) (List.cons_ne_nil c a) rfl
    have hrest : ∀ u v, v ≠ [] → u ++ v = a → ¬ sep <+: v ++ cs :=
      fun u v hv huv => h (c :: u) v hv (by rw [List.cons_append, huv])
    rw [List.cons_append, splitFrom, if_neg hc, ih _ hrest, List.reverse_cons, List.append_assoc]
    rfl

/-- The first piece ends at the first separator. -/
theorem split_append {s : α} {ss a : List α} (cs : List α) (hs : s ∉ ss) (ha : ¬ s :: ss <:+: a) :
    split (s :: ss) (a ++ (s :: ss ++ cs)) = a :: split (s :: ss) cs := by
  have hsep : s :: ss <+: s :: (ss ++ cs) := List.prefix_append (s :: ss) cs
  rw [split, splitFrom_piece _ a _ _ (not_prefix_of_piece hs ha), List.cons_append, splitFrom,
    if_pos hsep, List.length_cons, Nat.add_sub_cancel,
    splitFrom_append, List.append_nil, List.reverse_reverse]
  rfl

/-- A text without the separator is one piece. -/
theorem split_eq_singleton {sep a : List α} (ha : ¬ sep <:+: a) :
    split sep a = [a] := by
  have h := splitFrom_piece sep a [] [] (fun u v _ huv hpre => ha ?_)
  · rw [List.append_nil] at h
    rw [split, h, splitFrom, List.append_nil, List.reverse_reverse]
  · rw [List.append_nil] at hpre
    obtain ⟨t, ht⟩ := hpre
    exact ⟨u, t, by rw [List.append_assoc, ht, huv]⟩

/-- A text with one separator is two pieces. -/
theorem split_pair {s : α} {ss a b : List α} (hs : s ∉ ss) (ha : ¬ s :: ss <:+: a) (hb : s ∉ b) :
    split (s :: ss) (a ++ (s :: ss ++ b)) = [a, b] := by
  have hin : ¬ s :: ss <:+: b := fun hin => hb (hin.subset List.mem_cons_self)
  rw [split_append b hs ha, split_eq_singleton hin]

/-- A text in which pieces without the separator each have it before them. -/
theorem split_flatMap (s : α) (ss : List α) {a : List α} {pieces : List (List α)} (hs : s ∉ ss)
    (ha : ¬ s :: ss <:+: a) (h : ∀ p ∈ pieces, ¬ s :: ss <:+: p) :
    split (s :: ss) (a ++ pieces.flatMap (s :: ss ++ ·)) = a :: pieces := by
  induction pieces generalizing a with
  | nil =>
    rw [List.flatMap_nil, List.append_nil]
    exact split_eq_singleton ha
  | cons p pieces ih =>
    rw [List.flatMap_cons, List.append_assoc, split_append _ hs ha,
      ih (h p List.mem_cons_self) fun q hq => h q (List.mem_cons_of_mem p hq)]

/-- The lines of a text of lines that do not contain `c`. -/
theorem splitOn_unlines {c : α} {ls : List (List α)} (h : ∀ l ∈ ls, c ∉ l) (t : List α) :
    (unlines c ls ++ t).splitOn c = ls ++ t.splitOn c := by
  induction ls with
  | nil => rfl
  | cons l ls ih =>
    rw [unlines_cons, List.append_assoc, List.cons_append,
      List.splitOn_append_cons_self_of_not_mem (h l List.mem_cons_self),
      ih fun l' hl' => h l' (List.mem_cons_of_mem l hl'), List.cons_append]

end

/-! ## Counting occurrences -/

section
variable {α : Type _} [DecidableEq α]

/-- The occurrences of a word, from left to right and without overlap, in a text whose first `skip`
characters are the rest of one. -/
def countFrom (w : List α) : Nat → List α → Nat
  | _, [] => 0
  | skip + 1, _ :: cs => countFrom w skip cs
  | 0, c :: cs =>
    if w <+: c :: cs then countFrom w (w.length - 1) cs + 1 else countFrom w 0 cs

/-- `s.count(w)`, as `str.count` of Python counts a word. -/
def count (w cs : List α) : Nat := countFrom w 0 cs

variable {w a b : List α} {c : α}

/-- A word that occurs is counted. -/
theorem count_pos (hw : w ≠ []) (h : w <:+: a) : 0 < count w a := by
  induction a with
  | nil => exact absurd (List.infix_nil.1 h) hw
  | cons d a ih =>
    rw [count, countFrom]
    split
    · exact Nat.succ_pos _
    · next hpre => exact ih ((List.infix_cons_iff.1 h).resolve_left hpre)

/-- A word that does not occur is not counted. -/
theorem count_eq_zero (h : ¬ w <:+: a) : count w a = 0 := by
  induction a with
  | nil => rfl
  | cons d a ih =>
    obtain ⟨hpre, hin⟩ := not_or.1 (List.infix_cons_iff.not.1 h)
    rw [count, countFrom, if_neg hpre]
    exact ih hin

/-- No occurrence of a word without `c` goes across a `c`. -/
theorem countFrom_append_cons (hc : c ∉ w) (hw : w ≠ []) {skip : Nat} (hskip : skip ≤ a.length) :
    countFrom w skip (a ++ c :: b) = countFrom w skip a + countFrom w 0 b := by
  induction a generalizing skip with
  | nil =>
    obtain rfl : skip = 0 := Nat.le_zero.1 hskip
    have hpre : ¬ w <+: c :: b :=
      fun h => hw (List.prefix_nil.1 (prefix_of_append_cons (a := []) hc h))
    have hskip : countFrom w 0 (c :: b) = countFrom w 0 b := if_neg hpre
    rw [List.nil_append, hskip]
    exact (Nat.zero_add _).symm
  | cons d a ih =>
    cases skip with
    | succ skip => exact ih (Nat.le_of_succ_le_succ hskip)
    | zero =>
      have hpre : w <+: d :: (a ++ c :: b) ↔ w <+: d :: a :=
        ⟨prefix_of_append_cons (a := d :: a) hc, fun h => h.trans (List.prefix_append (d :: a) _)⟩
      rw [List.cons_append, countFrom, countFrom]
      by_cases h : w <+: d :: a
      · -- the occurrence ends before the `c`
        have hlen : w.length - 1 ≤ a.length := by
          have := h.length_le
          rw [List.length_cons] at this
          omega
        rw [if_pos (hpre.2 h), if_pos h, ih hlen, Nat.add_right_comm]
      · rw [if_neg (hpre.not.2 h), if_neg h, ih (Nat.zero_le _)]

/-- The occurrences in lines are those in each of them. -/
theorem count_unlines (hc : c ∉ w) (hw : w ≠ []) (ls : List (List α)) :
    count w (unlines c ls) = (ls.map (count w)).sum := by
  induction ls with
  | nil => rfl
  | cons l ls ih =>
    rw [unlines_cons, count, countFrom_append_cons hc hw (Nat.zero_le _), List.map_cons,
      List.sum_cons, ← ih]
    rfl

end

/-! ## Cutting at a word -/

section
variable {α : Type _}

/-- What a longer separator adds. -/
theorem length_intercalate_cons (c : α) (w : List α) (ps : List (List α)) :
    ((c :: w).intercalate ps).length =
      ([c].intercalate ps).length + (ps.length - 1) * w.length := by
  induction ps with
  | nil => simp
  | cons p ps ih =>
    cases ps with
    | nil => simp
    | cons q ps =>
      simp only [List.intercalate_cons_cons, List.length_append, ih, List.length_cons,
        Nat.add_sub_cancel, Nat.succ_mul, List.length_nil]
      omega

variable [DecidableEq α]

/-- The pieces of a text without the first character of each occurrence of a word; an occurrence may
overlap the one before it. -/
def cut (w : List α) : List α → List (List α)
  | [] => [[]]
  | c :: cs => if w <+: c :: cs then [] :: cut w cs else (cut w cs).modifyHead (c :: ·)

variable {w s p : List α} {c : α}

theorem cut_cons_of_isPrefix {cs : List α} (h : w <+: c :: cs) : cut w (c :: cs) = [] :: cut w cs :=
  if_pos h

theorem cut_cons_of_not_isPrefix {cs : List α} (h : ¬ w <+: c :: cs) :
    cut w (c :: cs) = (cut w cs).modifyHead (c :: ·) := if_neg h

/-- There is a first piece, and it starts the text. -/
theorem cut_eq_cons (w s : List α) : ∃ p ps, cut w s = p :: ps ∧ p <+: s := by
  induction s with
  | nil => exact ⟨[], [], rfl, List.prefix_rfl⟩
  | cons c cs ih =>
    by_cases h : w <+: c :: cs
    · exact ⟨[], cut w cs, cut_cons_of_isPrefix h, List.nil_prefix⟩
    · obtain ⟨p, ps, hcut, hp⟩ := ih
      refine ⟨c :: p, ps, ?_, List.cons_prefix_cons.2 ⟨rfl, hp⟩⟩
      rw [cut_cons_of_not_isPrefix h, hcut]
      rfl

/-- No piece contains the word. -/
theorem not_infix_of_mem_cut (hw : w ≠ []) (hp : p ∈ cut w s) : ¬ w <:+: p := by
  induction s generalizing p with
  | nil =>
    obtain rfl := List.mem_singleton.1 hp
    exact fun h => hw (List.infix_nil.1 h)
  | cons c cs ih =>
    by_cases h : w <+: c :: cs
    · rw [cut_cons_of_isPrefix h] at hp
      rcases List.mem_cons.1 hp with rfl | hp
      · exact fun h => hw (List.infix_nil.1 h)
      · exact ih hp
    · obtain ⟨q, ps, hcut, hq⟩ := cut_eq_cons w cs
      rw [cut_cons_of_not_isPrefix h, hcut, List.modifyHead_cons] at hp
      rw [hcut] at ih
      rcases List.mem_cons.1 hp with rfl | hp
      · rw [List.infix_cons_iff, not_or]
        exact ⟨fun hin => h (hin.trans (List.cons_prefix_cons.2 ⟨rfl, hq⟩)),
          ih List.mem_cons_self⟩
      · exact ih (List.mem_cons_of_mem q hp)

/-- The pieces with the removed character between them are the text. -/
theorem intercalate_cut (c : α) (w s : List α) : [c].intercalate (cut (c :: w) s) = s := by
  induction s with
  | nil => rfl
  | cons d cs ih =>
    obtain ⟨p, ps, hcut, -⟩ := cut_eq_cons (c :: w) cs
    by_cases h : c :: w <+: d :: cs
    · obtain ⟨rfl, -⟩ := List.cons_prefix_cons.1 h
      rw [cut_cons_of_isPrefix h, hcut, List.intercalate_cons_cons, ← hcut, ih]
      rfl
    · rw [cut_cons_of_not_isPrefix h, hcut, List.modifyHead_cons, List.intercalate_cons_cons_left,
        ← hcut, ih]

/-- A text without the word is one piece. -/
theorem cut_eq_singleton (h : ¬ w <:+: s) : cut w s = [s] := by
  induction s with
  | nil => rfl
  | cons c cs ih =>
    obtain ⟨hpre, hin⟩ := not_or.1 (List.infix_cons_iff.not.1 h)
    rw [cut_cons_of_not_isPrefix hpre, ih hin]
    rfl

/-- A text with the word is more than one piece. -/
theorem one_lt_length_cut (h : c :: w <:+: s) : 1 < (cut (c :: w) s).length := by
  obtain ⟨p, ps, hcut, -⟩ := cut_eq_cons (c :: w) s
  rw [hcut]
  cases ps with
  | nil =>
    -- a single piece would be the text
    have hs := intercalate_cut c w s
    rw [hcut, List.intercalate_singleton] at hs
    subst hs
    exact absurd h (not_infix_of_mem_cut (List.cons_ne_nil c w) (hcut ▸ List.mem_singleton_self p))
  | cons q ps => simp

/-- At a single character, the pieces are those between its occurrences. -/
theorem cut_singleton (c : α) (s : List α) : cut [c] s = s.splitOn c := by
  induction s with
  | nil => rfl
  | cons d cs ih =>
    by_cases h : d = c
    · subst h
      rw [cut_cons_of_isPrefix (by simp), ih, List.splitOn_cons_eq_if_modifyHead,
        if_pos (beq_self_eq_true d)]
    · rw [cut_cons_of_not_isPrefix (by simpa using Ne.symm h), ih,
        List.splitOn_cons_eq_if_modifyHead, if_neg (by simpa using h)]

/-- An occurrence of a single character ends a piece. -/
theorem length_cut_singleton (c : α) (s : List α) : (cut [c] s).length = count [c] s + 1 := by
  induction s with
  | nil => rfl
  | cons d cs ih =>
    by_cases h : [c] <+: d :: cs
    · rw [cut_cons_of_isPrefix h, List.length_cons, ih, count, count, countFrom, if_pos h]
      rfl
    · have hcount : count [c] (d :: cs) = count [c] cs := if_neg h
      rw [cut_cons_of_not_isPrefix h, List.length_modifyHead, ih, hcount]

/-- `ps` is the text `s` split at `sep`: no piece contains `sep`, joined with it the pieces are `s`,
and there is one piece more than occurrences. -/
structure IsSplit (sep s : List α) (ps : List (List α)) : Prop where
  not_infix : ∀ p ∈ ps, ¬ sep <:+: p
  joined : sep.intercalate ps = s
  length_eq : ps.length = count sep s + 1

/-- Cutting away the first character of each occurrence is splitting where the word is that
character, or does not occur. -/
theorem isSplit_cut_iff (hw : w ≠ []) : IsSplit w s (cut w s) ↔ w.length = 1 ∨ ¬ w <:+: s := by
  cases w with
  | nil => exact absurd rfl hw
  | cons c w =>
    have hpieces : ∀ p ∈ cut (c :: w) s, ¬ c :: w <:+: p := fun p => not_infix_of_mem_cut hw
    refine ⟨fun h => ?_, ?_⟩
    · refine or_iff_not_imp_right.2 fun hin => ?_
      have hlen := congrArg List.length h.joined
      rw [length_intercalate_cons, intercalate_cut, Nat.add_eq_left, Nat.mul_eq_zero] at hlen
      have := one_lt_length_cut (Decidable.not_not.1 hin)
      rw [List.length_cons]
      omega
    · rintro (hone | hin)
      · obtain rfl : w = [] := by simpa using hone
        exact ⟨hpieces, intercalate_cut c [] s, length_cut_singleton c s⟩
      · refine ⟨hpieces, ?_, ?_⟩ <;> rw [cut_eq_singleton hin]
        · exact List.intercalate_singleton
        · rw [count_eq_zero hin]
          rfl

end

/-! ## The lines of a file -/

/-- Text mode reads each `\r\n` and each `\r` as `\n`. -/
def universalNewlines : List Char → List Char
  | '\r' :: '\n' :: cs => '\n' :: universalNewlines cs
  | '\r' :: cs => '\n' :: universalNewlines cs
  | c :: cs => c :: universalNewlines cs
  | [] => []

/-- The lines of a text, each with its `\n`, where the characters `acc`, last first, are already in
the first line. -/
def linesFrom (acc : List Char) : List Char → List (List Char)
  | [] => if acc = [] then [] else [acc.reverse]
  | c :: cs =>
    if c = '\n' then (c :: acc).reverse :: linesFrom [] cs else linesFrom (c :: acc) cs

/-- `for line in file`, of a file that was opened in text mode. -/
def fileLines (cs : List Char) : List (List Char) := linesFrom [] (universalNewlines cs)

theorem universalNewlines_eq {cs : List Char} (h : '\r' ∉ cs) : universalNewlines cs = cs := by
  induction cs with
  | nil => rfl
  | cons c cs ih =>
    obtain ⟨hc, hcs⟩ := not_or.1 (List.mem_cons.not.1 h)
    unfold universalNewlines
    split
    · next heq => cases heq; exact absurd rfl hc
    · next heq => cases heq; exact absurd rfl hc
    · next heq => cases heq; rw [ih hcs]
    · next heq => cases heq

/-- A line ends at its `\n`. -/
theorem linesFrom_append {l : List Char} (acc cs : List Char) (h : '\n' ∉ l) :
    linesFrom acc (l ++ '\n' :: cs) = (acc.reverse ++ l ++ ['\n']) :: linesFrom [] cs := by
  induction l generalizing acc with
  | nil => simp [linesFrom]
  | cons c l ih =>
    obtain ⟨hc, hl⟩ := not_or.1 (List.mem_cons.not.1 h)
    rw [List.cons_append, linesFrom, if_neg (Ne.symm hc), ih _ hl]
    simp

/-- The lines that were written are read. -/
theorem fileLines_unlines {ls : List (List Char)} (h : ∀ l ∈ ls, '\n' ∉ l ∧ '\r' ∉ l) :
    fileLines (unlines '\n' ls) = ls.map (· ++ ['\n']) := by
  have hr : '\r' ∉ unlines '\n' ls := by
    simp only [unlines, List.mem_flatMap, List.mem_append, List.mem_singleton, not_exists, not_and,
      not_or]
    exact fun l hl => ⟨(h l hl).2, by decide⟩
  rw [fileLines, universalNewlines_eq hr]
  clear hr
  induction ls with
  | nil => rfl
  | cons l ls ih =>
    rw [unlines_cons, linesFrom_append [] _ (h l List.mem_cons_self).1,
      ih fun l' hl' => h l' (List.mem_cons_of_mem l hl')]
    rfl

/-- A file is read line by line, when each line that was written is read as its value. -/
theorem mapM_fileLines {ι β : Type} {line : ι → List Char} {read : List Char → Option β}
    {value : ι → β} {xs : List ι} (hline : ∀ x ∈ xs, '\n' ∉ line x ∧ '\r' ∉ line x)
    (hread : ∀ x ∈ xs, read (line x ++ ['\n']) = some (value x)) :
    (fileLines (unlines '\n' (xs.map line))).mapM read = some (xs.map value) := by
  rw [fileLines_unlines (by simpa using hline), List.map_map]
  clear hline
  induction xs with
  | nil => rfl
  | cons x xs ih =>
    rw [List.map_cons, List.mapM_cons, Function.comp_apply, hread x List.mem_cons_self,
      ih fun y hy => hread y (List.mem_cons_of_mem x hy)]
    rfl

/-! ## Numerals -/

/-- White space. -/
def isSpace (c : Char) : Bool :=
  c = ' ' || c = '\t' || c = '\n' || c = '\r' || c = '\x0b' || c = '\x0c'

/-- `s.strip()`. -/
def strip (cs : List Char) : List Char :=
  ((cs.dropWhile isSpace).reverse.dropWhile isSpace).reverse

/-- `s.rstrip()`. -/
def rstrip (cs : List Char) : List Char := (cs.reverse.dropWhile isSpace).reverse

/-- What ends in no white space is what is left of it with white space behind it. -/
theorem rstrip_append {a : List Char} (s : List Char) {c : Char} (hs : ∀ d ∈ s, isSpace d = true)
    (hc : isSpace c = false) : rstrip (a ++ [c] ++ s) = a ++ [c] := by
  have hs' : ∀ d ∈ s.reverse, isSpace d = true := fun d hd => hs d (List.mem_reverse.1 hd)
  rw [rstrip, List.reverse_append, List.dropWhile_append_of_pos hs', List.reverse_append,
    List.reverse_singleton, List.singleton_append, List.dropWhile_cons_of_neg (by rw [hc]; decide),
    List.reverse_cons, List.reverse_reverse]

/-- What ends in a word is what is left of it with white space behind it. -/
theorem rstrip_append_word {a w : List Char} (s : List Char) (hs : ∀ d ∈ s, isSpace d = true)
    (hne : w ≠ []) (hw : ∀ c ∈ w, isSpace c = false) : rstrip (a ++ w ++ s) = a ++ w := by
  obtain ⟨v, c, rfl⟩ := (List.eq_nil_or_concat' w).resolve_left hne
  rw [← List.append_assoc]
  exact rstrip_append s hs (hw c (List.mem_append_right v (List.mem_singleton_self c)))

/-- The number that decimal digits write. -/
def ofDigits (ds : List Char) : Nat := ds.foldl (fun n c => 10 * n + (c.toNat - '0'.toNat)) 0

/-- One or more digits. -/
def natural (cs : List Char) : Option ℚ :=
  if cs ≠ [] ∧ cs.all Char.isDigit = true then some (ofDigits cs) else none

/-- Digits with at most one point among them. -/
def decimal (cs : List Char) : Option ℚ :=
  match cs.splitOn '.' with
  | [w] => natural w
  | [w, f] => (natural (w ++ f)).map (· / 10 ^ f.length)
  | _ => none

/-- A sign in front of a number. -/
def signed (number : List Char → Option ℚ) : List Char → Option ℚ
  | '-' :: cs => (number cs).map (- ·)
  | '+' :: cs => number cs
  | cs => number cs

/-- The rational number that a numeral writes, with or without white space around it: a sign, digits
with a point, and an exponent. (`float` also accepts underscores, `inf` and `nan`.) -/
def numeral (cs : List Char) : Option ℚ :=
  match (strip cs).splitOnP fun c => c = 'e' || c = 'E' with
  | [m] => signed decimal m
  | [m, e] => do
    let m ← signed decimal m
    let e ← signed natural e
    return m * 10 ^ e.num
  | _ => none

/-- White space around a text without any is stripped. -/
theorem strip_replicate_append (k : Nat) {cs : List Char} (h : ∀ c ∈ cs, isSpace c = false) :
    strip (List.replicate k ' ' ++ cs) = cs := by
  have hdrop : ∀ l : List Char, (∀ c ∈ l, isSpace c = false) → l.dropWhile isSpace = l := by
    intro l hl
    cases l with
    | nil => rfl
    | cons c l => rw [List.dropWhile_cons_of_neg (by rw [hl c List.mem_cons_self]; decide)]
  have hspaces : (List.replicate k ' ' ++ cs).dropWhile isSpace = cs := by
    induction k with
    | zero => exact hdrop cs h
    | succ k ih =>
      rw [List.replicate_succ, List.cons_append, List.dropWhile_cons_of_pos (by decide)]
      exact ih
  rw [strip, hspaces, hdrop _ fun c hc => h c (List.mem_reverse.1 hc), List.reverse_reverse]

/-- A decimal number as it is printed: a minus sign for a negative one, digits, and digits after a
point, if there is one. -/
structure Decimal where
  neg : Bool
  whole : List Char
  frac : Option (List Char)
  whole_ne_nil : whole ≠ []
  whole_digits : ∀ c ∈ whole, c.isDigit = true
  frac_digits : ∀ f ∈ frac, ∀ c ∈ f, c.isDigit = true

namespace Decimal

/-- The digits and the point. -/
def digits (d : Decimal) : List Char :=
  match d.frac with
  | none => d.whole
  | some f => d.whole ++ '.' :: f

/-- The printed number. -/
def text (d : Decimal) : List Char := if d.neg then '-' :: d.digits else d.digits

/-- The number without its sign. -/
def abs (d : Decimal) : ℚ :=
  match d.frac with
  | none => ofDigits d.whole
  | some f => ofDigits (d.whole ++ f) / 10 ^ f.length

/-- The number. -/
def value (d : Decimal) : ℚ := if d.neg then -d.abs else d.abs

/-- A digit, a point or a minus sign. -/
def isChar (c : Char) : Bool := c.isDigit || c == '.' || c == '-'

/-- The characters of the digits. -/
theorem mem_digits {d : Decimal} {c : Char} (hc : c ∈ d.digits) : c.isDigit = true ∨ c = '.' := by
  unfold digits at hc
  split at hc
  · exact .inl (d.whole_digits c hc)
  · next f hf =>
    rcases List.mem_append.1 hc with hc | hc
    · exact .inl (d.whole_digits c hc)
    · obtain rfl | hc := List.mem_cons.1 hc
      · exact .inr rfl
      · exact .inl (d.frac_digits f hf c hc)

/-- The characters of a printed number. -/
theorem isChar_of_mem_text {d : Decimal} {c : Char} (hc : c ∈ d.text) : isChar c = true := by
  have hdigits : c ∈ d.digits → isChar c = true := by
    intro hc
    rcases mem_digits hc with h | rfl
    · simp [isChar, h]
    · rfl
  unfold text at hc
  split at hc
  · obtain rfl | hc := List.mem_cons.1 hc
    · rfl
    · exact hdigits hc
  · exact hdigits hc

/-- Another character is not in a printed number. -/
theorem not_mem_text (d : Decimal) {c : Char} (hc : isChar c = false) : c ∉ d.text :=
  fun hmem => Bool.false_ne_true (hc.symm.trans (isChar_of_mem_text hmem))

/-- There is no white space in a printed number. -/
theorem isSpace_of_mem_text {d : Decimal} {c : Char} (hc : c ∈ d.text) : isSpace c = false := by
  refine Bool.eq_false_iff.2 fun hsp => ?_
  simp only [isSpace, Bool.or_eq_true, decide_eq_true_eq] at hsp
  rcases hsp with ((((rfl | rfl) | rfl) | rfl) | rfl) | rfl <;>
    exact d.not_mem_text rfl hc

/-- Some digits make a natural number. -/
theorem natural_eq {cs : List Char} (hne : cs ≠ []) (h : ∀ c ∈ cs, c.isDigit = true) :
    natural cs = some (ofDigits cs : ℚ) := if_pos ⟨hne, List.all_eq_true.2 h⟩

/-- There is no point among digits. -/
theorem point_not_mem {cs : List Char} (h : ∀ c ∈ cs, c.isDigit = true) : '.' ∉ cs :=
  fun hmem => absurd (h _ hmem) (by decide)

/-- The digits and the point are read back. -/
theorem decimal_digits (d : Decimal) : decimal d.digits = some d.abs := by
  unfold digits abs decimal
  cases hf : d.frac with
  | none =>
    dsimp only
    rw [List.splitOn_eq_singleton (point_not_mem d.whole_digits)]
    exact natural_eq d.whole_ne_nil d.whole_digits
  | some f =>
    have hdigits := d.frac_digits f hf
    have hnat : natural (d.whole ++ f) = some (ofDigits (d.whole ++ f) : ℚ) := by
      refine natural_eq (fun h => d.whole_ne_nil (List.append_eq_nil_iff.1 h).1) fun c hc => ?_
      rcases List.mem_append.1 hc with hc | hc
      · exact d.whole_digits c hc
      · exact hdigits c hc
    dsimp only
    rw [List.splitOn_append_cons_self_of_not_mem (point_not_mem d.whole_digits),
      List.splitOn_eq_singleton (point_not_mem hdigits)]
    dsimp only
    rw [hnat]
    rfl

/-- The printed number is read back, with its sign. -/
theorem signed_text (d : Decimal) : signed decimal d.text = some d.value := by
  unfold text value
  split
  · rw [signed, decimal_digits]
    rfl
  · -- the digits start with a digit
    have hhead : ∀ c cs, d.digits = c :: cs → c ≠ '-' ∧ c ≠ '+' := by
      intro c cs hcs
      have hmem : c ∈ d.digits := hcs ▸ List.mem_cons_self
      refine ⟨?_, ?_⟩ <;> rintro rfl <;> rcases mem_digits hmem with h | h <;> cases h
    rw [← decimal_digits]
    unfold signed
    split
    · next cs hcs => exact absurd rfl (hhead _ _ hcs).1
    · next cs hcs => exact absurd rfl (hhead _ _ hcs).2
    · rfl

/-- A printed number is read back, with white space before it. -/
theorem numeral_text (d : Decimal) (k : Nat) :
    numeral (List.replicate k ' ' ++ d.text) = some d.value := by
  have hexp : ∀ c ∈ d.text, (decide (c = 'e') || decide (c = 'E')) = false := by
    intro c hc
    refine Bool.eq_false_iff.2 fun he => ?_
    simp only [Bool.or_eq_true, decide_eq_true_eq] at he
    rcases he with rfl | rfl <;>
      exact d.not_mem_text rfl hc
  rw [numeral, strip_replicate_append k fun c hc => d.isSpace_of_mem_text hc,
    List.splitOnP_eq_singleton hexp]
  exact d.signed_text

end Decimal

end Text
