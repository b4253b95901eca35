import ReturnHints.Proofs.Json.Written
import ReturnHints.Proofs.Wire.AnyOrder

/-!
# Hints are read as they are written

What is written for a hint tells its fields, in their order, and leaves out what is absent.  So it
is one of the texts from which the hint is read:

    RecordText h.slots h.write                                              (recordText_write)
    h.Fits → readAll Hint.read (String.ofList h.write) = .ok h                  (readAll_write)
-/

namespace ReturnHints

open Json

/-! ## Places and insertions -/

theorem Position.recordText_write (p : Position) : RecordText p.slots p.write := by
  apply Slot.Written.recordText
  refine .cons ?_ rfl (.cons ?_ rfl .nil)
  · exact .number (numberText_writeNatural p.line)
  · exact .number (numberText_writeNatural p.character)

theorem Insertion.recordText_write (i : Insertion) : RecordText i.slots i.write := by
  have hposition := i.position.recordText_write
  have htext := spelled_writeText i.text
  apply Slot.Written.recordText
  exact .cons hposition.valueText hposition (.cons htext.valueText htext .nil)

/-! ## Hints -/

namespace Hint

theorem recordText_write (h : Hint) : RecordText h.slots h.write := by
  have hreturnType := spelled_writeText h.returnType
  apply Slot.Written.recordText
  refine .optional h.name (fun n _ => (spelled_writeText n).valueText)
    (fun n _ => spelled_writeText n) (.cons hreturnType.valueText hreturnType ?_)
  rw [← List.append_nil (h.insertion.map _).toList]
  exact .optional h.insertion (fun i _ => i.recordText_write.valueText)
    (fun i _ => i.recordText_write) .nil

/-- **Hints are read as they are written**: the whole text is read as the hint it was written for,
so that no two hints have the same text. -/
theorem readAll_write (h : Hint) (hfits : h.Fits) :
    readAll Hint.read (String.ofList h.write) = .ok h ∧
      ∀ h' : Hint, h'.Fits → String.ofList h'.write = String.ofList h.write → h' = h := by
  have hback : ∀ h : Hint, h.Fits → readAll Hint.read (String.ofList h.write) = .ok h := by
    intro h hfits
    have hread : ReadsIn Hint.read h.write h := (builds hfits).readsIn h.recordText_write
    refine readAll_of_readsIn hread blank_nil blank_nil ?_
    rw [String.toList_ofList, List.append_nil, List.nil_append]
  refine ⟨hback h hfits, ?_⟩
  intro h' hfits' heq
  have hread := hback h' hfits'
  rw [heq, hback h hfits] at hread
  exact (Except.ok.inj hread).symm

/-- Everything that is escaped, a character of two units and the largest word. -/
theorem readAll_write_escaped :
    let h : Hint := ⟨some "\"\\\x01", "\t|\n|😀", some ⟨⟨4294967295, 0⟩, ": \u2028"⟩⟩
    h.Fits ∧ readAll Hint.read (String.ofList h.write) = .ok h ∧
      String.ofList (Hint.write { h with name := none }) ≠ String.ofList h.write := by
  intro h
  have hfits : ∀ i ∈ h.insertion, i.position.Fits := by
    rintro i ⟨⟩
    exact ⟨by decide, by decide⟩
  refine ⟨hfits, (readAll_write h hfits).1, fun heq => ?_⟩
  have hname := congrArg Hint.name ((readAll_write h hfits).2 { h with name := none } hfits heq)
  cases hname

end Hint

end ReturnHints
