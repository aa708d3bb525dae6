/-
How deep a value may be to be read.

A reader gives up where a text opens more levels than it may.  With more levels to open it reads
the same from every text that it could read before, so a text that is read at all is read as by a
reader without a limit; and such a reader gives back whatever was written.
-/
import DocIndex.Proofs.Json.RoundTrip

namespace DocIndex.Json

/-! ### Readers that may open more levels -/

mutual

/-- What is read is also read by a reader that may open one more level. -/
theorem readValue?_deeper : ∀ {fuel depth : Nat} {text : List Char} {result : Json × List Char},
    readValue? fuel depth text = some result → readValue? fuel (depth + 1) text = some result
  | 0, _, _, _, h => by simp [readValue?] at h
  | fuel + 1, depth, chars, result, h => by
      rw [readValue?] at h ⊢
      cases hskip : skipBlanks chars with
      | nil => simp [hskip] at h
      | cons c rest =>
          simp only [hskip] at h ⊢
          by_cases hquote : (c == '\x22') = true
          · rwa [if_pos hquote] at h ⊢
          rw [if_neg hquote] at h ⊢
          by_cases hbracket : (c == '[') = true
          · rw [if_pos hbracket] at h ⊢
            cases depth with
            | zero => cases h
            | succ depth =>
                dsimp only at h ⊢
                split at h
                · exact h
                · obtain ⟨read, hread, rfl⟩ := Option.map_eq_some_iff.mp h
                  rw [readItems?_deeper hread]
                  rfl
          rw [if_neg hbracket] at h ⊢
          by_cases hbrace : (c == '\x7b') = true
          · rw [if_pos hbrace] at h ⊢
            cases depth with
            | zero => cases h
            | succ depth =>
                dsimp only at h ⊢
                split at h
                · exact h
                · obtain ⟨read, hread, rfl⟩ := Option.map_eq_some_iff.mp h
                  rw [readMembers?_deeper hread]
                  rfl
          -- What does not open a level is read without regard to it.
          rwa [if_neg hbrace] at h ⊢
termination_by structural fuel => fuel

theorem readItems?_deeper : ∀ {fuel depth : Nat} {found : List Json} {text : List Char}
    {result : List Json × List Char}, readItems? fuel depth found text = some result →
      readItems? fuel (depth + 1) found text = some result
  | 0, _, _, _, _, h => by simp [readItems?] at h
  | fuel + 1, depth, found, chars, result, h => by
      rw [readItems?] at h ⊢
      cases hvalue : readValue? fuel depth chars with
      | none => simp [hvalue] at h
      | some read =>
          simp only [hvalue, readValue?_deeper hvalue] at h ⊢
          split at h
          · exact readItems?_deeper h
          · exact h
          · cases h
termination_by structural fuel => fuel

theorem readMembers?_deeper : ∀ {fuel depth : Nat} {found : List (String × Json)}
    {text : List Char} {result : List (String × Json) × List Char},
      readMembers? fuel depth found text = some result →
        readMembers? fuel (depth + 1) found text = some result
  | 0, _, _, _, _, h => by simp [readMembers?] at h
  | fuel + 1, depth, found, chars, result, h => by
      rw [readMembers?] at h ⊢
      split at h
      · split at h
        · cases h
        · split at h
          · rename_i more _
            cases hvalue : readValue? fuel depth more with
            | none => simp [hvalue] at h
            | some read =>
                simp only [hvalue, readValue?_deeper hvalue] at h ⊢
                split at h
                · exact readMembers?_deeper h
                · exact h
                · cases h
          · cases h
      · cases h
termination_by structural fuel => fuel

end

theorem readValue?_of_le {fuel depth deeper : Nat} (hle : depth ≤ deeper) {text : List Char}
    {result : Json × List Char} (h : readValue? fuel depth text = some result) :
    readValue? fuel deeper text = some result := by
  induction hle with
  | refl => exact h
  | step _ ih => exact readValue?_deeper ih

/-! ### Values of any depth -/

mutual

theorem Legible.of_le : ∀ {json : Json} {depth deeper : Nat}, depth ≤ deeper →
    json.Legible depth → json.Legible deeper
  | null, _, _, _, _ => trivial
  | bool _, _, _, _, _ => trivial
  | int _, _, _, _, h => h
  | double _, _, _, _, h => h
  | text _, _, _, _, _ => trivial
  | array _, _, _, hle, h =>
      ⟨Nat.lt_of_lt_of_le h.1 hle, LegibleItems.of_le (Nat.sub_le_sub_right hle 1) h.2⟩
  | object _, _, _, hle, h =>
      ⟨Nat.lt_of_lt_of_le h.1 hle, LegibleMembers.of_le (Nat.sub_le_sub_right hle 1) h.2⟩

theorem LegibleItems.of_le : ∀ {items : List Json} {depth deeper : Nat}, depth ≤ deeper →
    LegibleItems depth items → LegibleItems deeper items
  | [], _, _, _, _ => trivial
  | _ :: _, _, _, hle, h => ⟨h.1.of_le hle, LegibleItems.of_le hle h.2⟩

theorem LegibleMembers.of_le : ∀ {members : List (String × Json)} {depth deeper : Nat},
    depth ≤ deeper → LegibleMembers depth members → LegibleMembers deeper members
  | [], _, _, _, _ => trivial
  | _ :: _, _, _, hle, h => ⟨h.1.of_le hle, LegibleMembers.of_le hle h.2⟩

end

/-- **A text that is parsed at all gives what was written**, however deep that is. -/
theorem eq_of_parseWritten?_write {json value : Json} {depth : Nat} (h : json.Legible depth)
    (hparse : parseWritten? json.write = some value) : value = json := by
  have hends : Ends [] := fun c hc => by cases hc
  have hwhole : readValue? (json.write.toList.length + 1) (max depth maxDepth) json.write.toList
      = some (json, []) := by
    have hread := readValue?_spell .tight (h.of_le (Nat.le_max_left depth maxDepth)) hends
      (Nat.lt_succ_self (spell .tight 0 json).length)
    rwa [List.append_nil, ← toList_write json 0] at hread
  simp only [parseWritten?] at hparse
  split at hparse
  · rename_i read rest hread
    have hsame := (readValue?_of_le (Nat.le_max_right depth maxDepth) hread).symm.trans hwhole
    obtain ⟨rfl, rfl⟩ := Prod.mk.inj (Option.some.inj hsame)
    exact (Option.some.inj hparse).symm
  · cases hparse

end DocIndex.Json
