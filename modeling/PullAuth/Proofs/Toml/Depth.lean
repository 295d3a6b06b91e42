import PullAuth.Proofs.Toml.Digits

/-!
Arrays inside arrays. A value that begins with more opening brackets than there is room for is
nested too deep, whatever comes behind them (`readValue_brackets`), and so is a document with such a
value (`read_of_brackets`).
-/
namespace PullAuth.Toml

theorem skipFiller_brackets (fuel n : Nat) (t : Text) :
    skipFiller fuel (Text.brackets (n + 1) ++ t) = .ok (Text.brackets (n + 1) ++ t) := by
  rw [Text.brackets_succ]
  cases fuel with
  | zero => rfl
  | succ fuel => rfl

theorem readValue_bracket (fuel room : Nat) (t : Text) :
    readValue (fuel + 1) room (.ofChar '[' :: t) =
      if room < arrayRoom then .error .tooDeep
      else (skipFiller t.length t).bind fun filled =>
        match filled with
        | [] => .error .malformed
        | d :: rest =>
          if d = ']' then .ok (array [], rest)
          else (readItems fuel (room - arrayRoom) (d :: rest)).bind fun (items, rest) =>
            .ok (array items, rest) := by
  rw [readValue.eq_def]
  rfl

/-- Two steps of the reading lead from one bracket to the next, and take the room of an array. -/
theorem readValue_brackets {room n fuel : Nat} (t : Text) (hn : room < arrayRoom * n)
    (hf : 2 * n ≤ fuel) : readValue fuel room (Text.brackets n ++ t) = .error .tooDeep := by
  induction n generalizing room fuel with
  | zero => cases hn
  | succ n ih =>
    obtain ⟨fuel, rfl⟩ : ∃ k, fuel = k + 2 := ⟨fuel - 2, by omega⟩
    rw [Text.brackets_succ, readValue_bracket]
    by_cases full : room < arrayRoom
    · rw [if_pos full]
    · obtain ⟨n, rfl⟩ : ∃ k, n = k + 1 := ⟨n - 1, by rw [arrayRoom] at *; omega⟩
      have inner : readValue fuel (room - arrayRoom) (Text.brackets (n + 1) ++ t) =
          .error .tooDeep := ih (by rw [arrayRoom] at *; omega) (by omega)
      rw [if_neg full, skipFiller_brackets]
      rw [Text.brackets_succ] at inner ⊢
      simp only [bind, Except.bind, readItems, inner]
      rfl

/-- A document whose value begins with more brackets than there is room for is too deep. -/
theorem read_of_brackets {n : Nat} (hn : valueRoom < arrayRoom * n) :
    read (Bytes.ofAscii (pairDocument (Text.brackets n))) = .error .tooDeep := by
  obtain ⟨n, rfl⟩ : ∃ k, n = k + 1 := ⟨n - 1, by rw [valueRoom, arrayRoom] at hn; omega⟩
  have noReturn : CodePoint.ofChar '\r' ∉ Text.brackets (n + 1) := fun h =>
    absurd (List.eq_of_mem_replicate h) (by decide)
  have value : readValue (2 * (Text.brackets (n + 1)).length + 2) valueRoom
      (Text.brackets (n + 1)) = .error .tooDeep := by
    have inner := readValue_brackets (n := n + 1) [] hn (Nat.le_add_right _ 2)
    rw [List.append_nil] at inner
    rw [Text.brackets, List.length_replicate]
    exact inner
  have opened : Text.brackets (n + 1) = .ofChar '[' :: Text.brackets n := rfl
  rw [read_pairDocument (Text.isAscii_brackets _) noReturn, readStatements_pairDocument]
  rw [opened] at value ⊢
  rw [readStatement_pairDocument (by decide), value]
  rfl

end PullAuth.Toml
