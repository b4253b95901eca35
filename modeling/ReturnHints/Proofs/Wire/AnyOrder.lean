import ReturnHints.Proofs.Json.AnyOrder
import ReturnHints.Wire.Hint

/-!
# Hints are read in any order

A hint is read from every text that tells its fields, and not only from the one that is written:

    its members in any order, with any others between them, and null or nothing for what is absent
    or the list of its fields, with null for what is absent                  (readAll_any_order)

This goes for the insertion and for its place as well, which stand inside the hint.  The numbers of
a hint are the line and the column of its insertion, and they have to be 32-bit words.
-/

namespace ReturnHints

open Json

/-- Line and column are 32-bit words. -/
def Position.Fits (p : Position) : Prop := p.line < wordLimit ∧ p.character < wordLimit

/-- The hint inserts nothing, or at a line and a column that are 32-bit words. -/
def Hint.Fits (h : Hint) : Prop := ∀ i ∈ h.insertion, i.position.Fits

/-! ## Places -/

namespace Position

/-- A number has one text only. -/
def slots (p : Position) : List Slot :=
  [⟨"line", (· = writeNatural p.line), False⟩,
    ⟨"character", (· = writeNatural p.character), False⟩]

/-- What is known of a place when these keys were seen. -/
def parts (p : Position) (seen : List String) : Position.Parts where
  line := known "line" p.line seen
  character := known "character" p.character seen

theorem builds {p : Position} (h : p.Fits) : record.Builds p.slots p.parts p where
  lax := rfl
  nodup := by
    show ["line", "character"].Nodup
    decide
  start := rfl
  fields := by
    refine .cons ?_ (.cons ?_ .nil)
    · refine Field.takes_of ?_ (fun _ => rfl) (fun seen => ?_)
      · rintro value rfl
        exact readsIn_word32 h.1
      · simp [parts, known]
    · refine Field.takes_of ?_ (fun _ => rfl) (fun seen => ?_)
      · rintro value rfl
        exact readsIn_word32 h.2
      · simp [parts, known]
  finish := by
    intro seen hseen
    simp only [slots, List.forall_mem_cons, false_or] at hseen
    obtain ⟨hline, hcharacter, -⟩ := hseen
    simp only [record, parts, known_of_mem _ hline, known_of_mem _ hcharacter]
    rfl

end Position

/-! ## Insertions -/

namespace Insertion

def slots (i : Insertion) : List Slot :=
  [⟨"position", RecordText i.position.slots, False⟩, ⟨"text", Spelled i.text, False⟩]

/-- What is known of an insertion when these keys were seen. -/
def parts (i : Insertion) (seen : List String) : Insertion.Parts where
  position := known "position" i.position seen
  text := known "text" i.text seen

theorem builds {i : Insertion} (h : i.position.Fits) : record.Builds i.slots i.parts i where
  lax := rfl
  nodup := by
    show ["position", "text"].Nodup
    decide
  start := rfl
  fields := by
    refine .cons ?_ (.cons ?_ .nil)
    · refine Field.takes_of ?_ (fun _ => rfl) (fun seen => ?_)
      · exact fun value => (Position.builds h).readsIn
      · simp [parts, known]
    · refine Field.takes_of ?_ (fun _ => rfl) (fun seen => ?_)
      · exact fun value => readsIn_text
      · simp [parts, known]
  finish := by
    intro seen hseen
    simp only [slots, List.forall_mem_cons, false_or] at hseen
    obtain ⟨hposition, htext, -⟩ := hseen
    simp only [record, parts, known_of_mem _ hposition, known_of_mem _ htext]
    rfl

end Insertion

/-! ## Hints -/

namespace Hint

/-- What is absent is null or left out. -/
def slots (h : Hint) : List Slot :=
  [⟨"name", NullableText Spelled h.name, h.name = none⟩,
    ⟨"inferredReturnType", Spelled h.returnType, False⟩,
    ⟨"textToInsert", NullableText (fun i => RecordText i.slots) h.insertion, h.insertion = none⟩]

/-- What is known of a hint when these keys were seen. -/
def parts (h : Hint) (seen : List String) : Hint.Parts where
  name := known "name" h.name seen
  returnType := known "inferredReturnType" h.returnType seen
  insertion := known "textToInsert" h.insertion seen

theorem readsIn_name {name : Option String} {value : List Char}
    (h : NullableText Spelled name value) : ReadsIn (readNullable readText) value name := by
  cases h with
  | null => exact readsIn_null
  | some hname =>
    obtain ⟨tail, rfl⟩ := hname.head
    exact (readsIn_text hname).some (by decide) (by decide)

theorem readsIn_insertion {insertion : Option Insertion} (hfits : ∀ i ∈ insertion, i.position.Fits)
    {value : List Char} (h : NullableText (fun i => RecordText i.slots) insertion value) :
    ReadsIn (readNullable Insertion.read) value insertion := by
  cases h with
  | null => exact readsIn_null
  | @some i _ htext =>
    have hread : ReadsIn Insertion.read value i := (Insertion.builds (hfits i rfl)).readsIn htext
    obtain ⟨c, tail, rfl, rfl | rfl⟩ := htext.head
    · exact hread.some (by decide) (by decide)
    · exact hread.some (by decide) (by decide)

theorem builds {h : Hint} (hfits : h.Fits) : record.Builds h.slots h.parts h where
  lax := rfl
  nodup := by
    show ["name", "inferredReturnType", "textToInsert"].Nodup
    decide
  start := rfl
  fields := by
    refine .cons ?_ (.cons ?_ (.cons ?_ .nil))
    · refine Field.takes_of ?_ (fun _ => rfl) (fun seen => ?_)
      · exact fun value => readsIn_name
      · simp [parts, known]
    · refine Field.takes_of ?_ (fun _ => rfl) (fun seen => ?_)
      · exact fun value => readsIn_text
      · simp [parts, known]
    · refine Field.takes_of ?_ (fun _ => rfl) (fun seen => ?_)
      · exact fun value => readsIn_insertion hfits
      · simp [parts, known]
  finish := by
    intro seen hseen
    simp only [slots, List.forall_mem_cons, false_or] at hseen
    obtain ⟨hname, hreturnType, hinsertion, -⟩ := hseen
    simp only [record, parts, known_of_mem _ hreturnType, getD_known hname, getD_known hinsertion]
    rfl

/-- **Hints are read in any order.**  A hint is read from the text of every object whose members are
its own, in any order, with any number of others between them, whatever values these have; a name or
an insertion that it lacks is null there or has no member.  It is read from the list of its three
fields too, with null for what it lacks. -/
theorem readAll_any_order (h : Hint) (hfits : h.Fits) (text : String) :
    (∀ ms, ObjectText ms text.toList → Slot.Filled h.slots ms → readAll Hint.read text = .ok h) ∧
    ∀ values, ListText values text.toList →
      List.Forall₂ (fun slot value => slot.shows value) h.slots values →
      readAll Hint.read text = .ok h := by
  have hread : ∀ {value}, RecordText h.slots value → ReadsIn Hint.read value h :=
    (builds hfits).readsIn
  constructor
  · intro ms htext hfilled
    obtain ⟨before, value, behind, heq, hbefore, hbraces, hbehind⟩ := htext.exists_braces
    exact readAll_of_readsIn (hread (.object hbraces hfilled)) hbefore hbehind heq
  · intro values htext hshows
    generalize hcs : text.toList = cs at htext
    obtain ⟨hbefore, hbrackets, hbehind⟩ := htext
    exact readAll_of_readsIn (hread (.list hbrackets hshows)) hbefore hbehind hcs

/-- Members from the last to the first, behind one that is no field and has a number without end,
half of a pair and a member `name` in its value; and a list with nulls. -/
theorem readAll_any_order_reversed :
    readAll Hint.read (String.ofList (
        "\x7b\"x\" : [\x7b\"name\":1e999\x7d, \"\\ud800\"],\n\"textToInsert\":".toList
          ++ "[[4294967295,0],\": T\"],\"inferredReturnType\":\"T\",".toList
          ++ "\"n\\u0061me\":\"f\"\x7d".toList)) =
      .ok ⟨some "f", "T", some ⟨⟨4294967295, 0⟩, ": T"⟩⟩ ∧
    readAll Hint.read " [ null,\"T\",null]" = .ok ⟨none, "T", none⟩ := by
  have hspace : Blank [' '] := by decide
  have hline : Blank ['\n'] := by decide
  have ht : Spells "T".toList "T".toList := Bare.spells (by decide)
  constructor
  · have hname : Spells "n\\u0061me".toList "name".toList :=
      .plain (by decide) (by decide) (by decide)
        (.unit (n := 0x61) (by decide) (by decide) (by decide) (Bare.spells (by decide)))
    have hreturnType : Spells "inferredReturnType".toList "inferredReturnType".toList :=
      Bare.spells (by decide)
    have hinsert : Spells "textToInsert".toList "textToInsert".toList := Bare.spells (by decide)
    have hx : Spells "x".toList "x".toList := Bare.spells (by decide)
    have hf : Spells "f".toList "f".toList := Bare.spells (by decide)
    have htext : Spells ": T".toList ": T".toList := Bare.spells (by decide)
    -- the member that is no field
    have hplain : StringText "name".toList := (Bare.spells (by decide)).stringText
    have hhalf : StringText "\\ud800".toList := .unit (by decide) .nil
    have hnumber : NumberText "1e999".toList :=
      @NumberText.mk [] ['1'] [] "e999".toList (by decide)
        (.digits (by decide) (by decide)) .absent
        (@ExponentText.digits 'e' [] "999".toList (by decide) (by decide) (by decide))
    have hinside : MembersText [⟨"name".toList, "1e999".toList⟩] "\"name\":1e999".toList :=
      .last (.mk blank_nil hplain blank_nil blank_nil (.number hnumber) blank_nil)
    have hother : ValueText "[\x7b\"name\":1e999\x7d, \"\\ud800\"]".toList :=
      .list (.more blank_nil (.object hinside) blank_nil (.last hspace (.string hhalf) blank_nil))
    -- the insertion
    have hmax : NumberText "4294967295".toList :=
      @NumberText.mk [] "4294967295".toList [] [] (by decide) (.digits (by decide) (by decide))
        .absent .absent
    have hzero : NumberText "0".toList :=
      @NumberText.mk [] ['0'] [] [] (by decide) .zero .absent .absent
    have hposition : BracketsText ["4294967295".toList, "0".toList] "[4294967295,0]".toList :=
      .items (.more blank_nil (.number hmax) blank_nil (.last blank_nil (.number hzero) blank_nil))
    have hinsertion : BracketsText ["[4294967295,0]".toList, "\": T\"".toList]
        "[[4294967295,0],\": T\"]".toList :=
      .items (.more blank_nil hposition.valueText blank_nil
        (.last blank_nil (.string htext.stringText) blank_nil))
    have hfits : ∀ i ∈ some (⟨⟨4294967295, 0⟩, ": T"⟩ : Insertion), i.position.Fits := by
      rintro i ⟨⟩
      exact ⟨by decide, by decide⟩
    let x : Member := ⟨"x".toList, "[\x7b\"name\":1e999\x7d, \"\\ud800\"]".toList⟩
    let insertion : Member := ⟨"textToInsert".toList, "[[4294967295,0],\": T\"]".toList⟩
    let returnType : Member := ⟨"inferredReturnType".toList, "\"T\"".toList⟩
    let name : Member := ⟨"n\\u0061me".toList, "\"f\"".toList⟩
    refine (readAll_any_order ⟨some "f", "T", some ⟨⟨4294967295, 0⟩, ": T"⟩⟩ hfits _).1
      [x, insertion, returnType, name] ?_
      ⟨[name, returnType, insertion], [x], List.reverse_perm [name, returnType, insertion, x],
        .cons hname (.some ⟨hf⟩) (.cons hreturnType ⟨ht⟩
          (.cons hinsert (.some (.list hinsertion ?_)) .nil)), ?_⟩
    · have hmembers := MembersText.more
        (.mk (m := x) blank_nil hx.stringText hspace hspace hother blank_nil)
        (.more (.mk (m := insertion) hline hinsert.stringText blank_nil blank_nil
            hinsertion.valueText blank_nil)
          (.more (.mk (m := returnType) blank_nil hreturnType.stringText blank_nil blank_nil
              (.string ht.stringText) blank_nil)
            (.last (.mk (m := name) blank_nil hname.stringText blank_nil blank_nil
              (.string hf.stringText) blank_nil))))
      have hobject := ObjectText.members blank_nil hmembers blank_nil
      rw [String.toList_ofList]
      refine Eq.mpr (congrArg (ObjectText [x, insertion, returnType, name]) ?_) hobject
      decide +kernel
    · exact .cons (.list hposition (.cons rfl (.cons rfl .nil))) (.cons ⟨htext⟩ .nil)
    · refine List.forall_mem_singleton.2 ⟨_, hx, ?_⟩
      simp only [slots, List.forall_mem_cons]
      exact ⟨by decide, by decide, by decide, nofun⟩
  · refine (readAll_any_order ⟨none, "T", none⟩ nofun _).2
      ["null".toList, "\"T\"".toList, "null".toList] ?_
      (.cons .null (.cons ⟨ht⟩ (.cons .null .nil)))
    exact @ListText.mk _ [' '] "[ null,\"T\",null]".toList [] hspace
      (.items (.more hspace .null blank_nil (.more blank_nil (.string ht.stringText) blank_nil
        (.last blank_nil .null blank_nil)))) blank_nil

end Hint

end ReturnHints
