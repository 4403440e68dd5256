import SchedulerComparison.Launcher.ParseArgs

/-!
# Splitting at a delimiter

`string_to_vec_by_delim` takes a delimiter of any length and goes on one character behind the start
of each occurrence (`last = next + 1`), where the delimiter's length would be right. So it removes
the first character of each occurrence only (`stringToVecByDelim_cut`): joined with that character
the pieces are the string again, and joined with the delimiter they are the string exactly when the
delimiter is a single character or does not occur (`split_exactly`). `parse_args` passes `","`.
-/

open CxxString Text

namespace Launcher

section
variable {s delimiter : List Char}

/-- From a position on, the pieces are those of the rest. -/
theorem stringToVecLoop_cut (hd : delimiter ≠ []) (last : Nat) (h : last ≤ s.length) :
    stringToVecLoop s delimiter last = .ok (cut delimiter (s.drop last)) := by
  induction hn : s.length - last using Nat.strongRecOn generalizing last with
  | ind n ih =>
    rw [stringToVecLoop]
    split
    · next next hfind =>
      -- the piece up to the delimiter, and the pieces from the character behind its first one
      rw [find, if_pos h] at hfind
      obtain ⟨k, hk, rfl⟩ := Option.map_eq_some_iff.1 hfind
      have hlt := index_lt hd hk
      rw [List.length_drop] at hlt
      have hpiece : parseSubstr s last (last + k - last) = .ok ((s.drop last).take k) := by
        rw [parseSubstr, substr_of_le h, Nat.add_sub_cancel_left]
      rw [hpiece, ih (s.length - (last + k + 1)) (by omega) _ (by omega) rfl, cut_of_index hd hk,
        List.drop_drop, Nat.add_assoc]
      rfl
    · next hfind =>
      rw [find, if_pos h, Option.map_eq_none_iff] at hfind
      have hpiece : parseSubstr s last s.length = .ok (s.drop last) := by
        rw [parseSubstr, substr_of_le h, List.take_of_length_le (by rw [List.length_drop]; omega)]
      rw [hpiece, cut_of_index_eq_none hfind]
      rfl

/-- The pieces lack the first character of each occurrence of the delimiter. -/
theorem stringToVecByDelim_cut (s : List Char) (hd : delimiter ≠ []) :
    stringToVecByDelim s delimiter = .ok (cut delimiter s) := by
  rw [stringToVecByDelim, stringToVecLoop_cut hd 0 (Nat.zero_le _), List.drop_zero]

/-- At a single character, the pieces are those between its occurrences. -/
theorem stringToVecByDelim_eq (c : Char) (s : List Char) :
    stringToVecByDelim s [c] = .ok (s.splitOn c) := by
  rw [stringToVecByDelim_cut s (List.cons_ne_nil c []), cut_singleton]

/-- `string_to_vec_by_delim` returns, and what it returns is a split. -/
def Splits (s delimiter : List Char) : Prop :=
  ∃ res, stringToVecByDelim s delimiter = .ok res ∧ IsSplit delimiter s res

/-- `string_to_vec_by_delim` splits where the delimiter is a single character or does not occur. -/
theorem split_exactly (hd : delimiter ≠ []) :
    Splits s delimiter ↔ delimiter.length = 1 ∨ ¬ delimiter <:+: s := by
  rw [← isSplit_cut_iff hd, Splits, stringToVecByDelim_cut s hd]
  constructor
  · rintro ⟨res, heq, hsplit⟩
    cases heq
    exact hsplit
  · exact fun hsplit => ⟨_, rfl, hsplit⟩

/-- The range of the launcher's usage text is split at its commas. -/
theorem split_at_commas : Splits "1,10,2".toList [','] :=
  (split_exactly (List.cons_ne_nil ',' [])).2 (.inl rfl)

/-- The second character of a delimiter stays at the start of the next piece. -/
theorem delimiter_stays : ¬ Splits "a--b".toList "--".toList := by
  rintro ⟨res, heq, hsplit⟩
  rw [stringToVecByDelim_cut _ (by decide)] at heq
  cases heq
  exact absurd hsplit.joined (by decide)

end

end Launcher
