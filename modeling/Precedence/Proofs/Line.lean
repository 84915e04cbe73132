import Precedence.Proofs.Record
import Precedence.Proofs.TaskMap
/-!
A record is one line, and the lines of a file of records are read back in their order, each over
what those before it left.
-/
namespace Precedence.Bytes

/-- A byte below 128 in the encoding of a character is that character. -/
theorem toNat_of_mem_utf8EncodeChar {c : Char} {b : UInt8} (h : b ∈ String.utf8EncodeChar c)
    (ascii : b.toNat < 128) : c.toNat = b.toNat := by
  have byte {n : Nat} (e : b = UInt8.ofNat n) : n % 256 = b.toNat := by rw [e, UInt8.toNat_ofNat']
  simp only [String.utf8EncodeChar] at h
  split at h
  · next small =>
    have code := byte (List.mem_singleton.1 h)
    rwa [Nat.mod_eq_of_lt (by omega)] at code
  split at h
  · simp only [List.mem_cons, List.not_mem_nil, or_false] at h
    rcases h with h | h <;> have := byte h <;> omega
  split at h
  · simp only [List.mem_cons, List.not_mem_nil, or_false] at h
    rcases h with h | h | h <;> have := byte h <;> omega
  · simp only [List.mem_cons, List.not_mem_nil, or_false] at h
    rcases h with h | h | h | h <;> have := byte h <;> omega

theorem ofText_ofList (cs : List Char) :
    ofText (String.ofList cs) = cs.flatMap String.utf8EncodeChar := by
  rw [ofText, String.toByteArray_ofList, List.utf8Encode, List.toList_data_toByteArray]

theorem newline_not_mem_ofText {cs : List Char} (h : '\n' ∉ cs) :
    10 ∉ ofText (String.ofList cs) := by
  rw [ofText_ofList, List.mem_flatMap]
  rintro ⟨c, hc, byte⟩
  have newline : c = '\n' := Char.toNat_inj.1 (toNat_of_mem_utf8EncodeChar byte (by decide))
  exact h (newline ▸ hc)

end Precedence.Bytes

namespace Precedence.Json

open Text

/-- A text without control characters, so without line breaks. -/
def Printable (cs : List Char) : Prop := ∀ c ∈ cs, 32 ≤ c.toNat

@[simp] theorem printable_nil : Printable [] := by
  rintro _ ⟨⟩

@[simp] theorem printable_cons {c : Char} {cs : List Char} :
    Printable (c :: cs) ↔ 32 ≤ c.toNat ∧ Printable cs := List.forall_mem_cons

@[simp] theorem printable_append {cs ds : List Char} :
    Printable (cs ++ ds) ↔ Printable cs ∧ Printable ds := List.forall_mem_append

theorem Printable.not_mem {cs : List Char} (h : Printable cs) {c : Char} (control : c.toNat < 32) :
    c ∉ cs := fun there => absurd (h c there) (Nat.not_le.2 control)

theorem printable_escape (c : Char) : Printable (escape c) := by
  have hex (n : Nat) : 32 ≤ (hexDigit n).toNat := by
    have all : ∀ m, m < 16 → 32 ≤ (hexDigit m).toNat := by decide
    have h := all (n % 16) (Nat.mod_lt _ (by decide))
    simpa [hexDigit] using h
  unfold escape
  iterate 7
    split
    · simp
  split
  · simp [hex]
  · next printable => simpa using printable

@[simp] theorem printable_quoted (s : String) : Printable (quoted s) := by
  have body : Printable (s.toList.flatMap escape) := by
    intro c there
    obtain ⟨b, -, here⟩ := List.mem_flatMap.1 there
    exact printable_escape b c here
  simp [quoted, quotedBody, body]

@[simp] theorem printable_decimal (n : Nat) : Printable (decimal n) := by
  intro c there
  have digit := isDigit_of_mem_decimal n c there
  simp only [isDigit, Bool.and_eq_true, decide_eq_true_eq] at digit
  omega

theorem printable_value {t : Task} {f : Field} {value : Document}
    (h : f.value? t = some value) : Printable (printChars value) := by
  have items (ps : List TaskId) : Printable (printItems (ps.map fun p => .text p.text)) := by
    induction ps with
    | nil => simp [printItems]
    | cons p ps ih => simp [printItems, printChars, ih]
  cases f with
  | id => obtain rfl := Option.some.inj h; exact printable_quoted _
  | description => obtain rfl := Option.some.inj h; exact printable_quoted _
  | status => obtain rfl := Option.some.inj h; exact printable_quoted _
  | priority =>
    obtain rfl := Option.some.inj h
    rw [printChars_natural]
    exact printable_decimal _
  | estimatedDuration =>
    obtain ⟨n, -, rfl⟩ := Option.map_eq_some_iff.1 h
    rw [printChars_natural]
    exact printable_decimal _
  | parent => obtain ⟨p, -, rfl⟩ := Option.map_eq_some_iff.1 h; exact printable_quoted _
  | depth =>
    obtain rfl := Option.some.inj h
    rw [printChars_natural]
    exact printable_decimal _
  | origin => obtain rfl := Option.some.inj h; exact printable_quoted _
  | dependsOn =>
    simp only [Field.value?] at h
    split at h
    · contradiction
    · obtain rfl := Option.some.inj h
      cases e : t.dependsOn with
      | nil => simp [printChars]
      | cons p ps => simp [printChars, items ps]
  | createdAt => obtain rfl := Option.some.inj h; exact printable_quoted _
  | updatedAt => obtain rfl := Option.some.inj h; exact printable_quoted _
  | completedAt => obtain ⟨c, -, rfl⟩ := Option.map_eq_some_iff.1 h; exact printable_quoted _

@[simp] theorem printable_printFields (t : Task) (fs : List Field) :
    Printable (printFields (Record.written t fs)) := by
  induction fs with
  | nil => simp [Record.written, printFields]
  | cons f fs ih =>
    cases h : f.value? t with
    | none => rwa [Record.written_cons_none h]
    | some value =>
      rw [Record.written_cons_some h]
      simp [printFields, printable_value h, ih]

theorem printable_document (t : Task) : Printable (printChars t.document) := by
  have document : t.document =
      .table (("id", .text t.id.text) :: Record.written t Field.all.tail) := rfl
  rw [document]
  simp [printChars]

end Precedence.Json

namespace Precedence.Store

def content (t : Task) : Bytes := Bytes.ofText t.record

theorem line_eq (t : Task) : line t = content t ++ [10] := by
  rw [line, Bytes.ofText_append]
  rfl

theorem newline_not_mem_content (t : Task) : 10 ∉ content t :=
  Bytes.newline_not_mem_ofText ((Json.printable_document t).not_mem (by decide))

/-- The lines of a file of records are its records, whatever follows them. -/
theorem lines_encode_append (tasks : List Task) (rest : Bytes) :
    (encode tasks ++ rest).lines = tasks.map content ++ rest.lines := by
  induction tasks with
  | nil => rfl
  | cons t tasks ih =>
    rw [encode, List.flatMap_cons, List.append_assoc, line_eq, List.append_assoc]
    rw [List.singleton_append, Bytes.lines_append_cons (newline_not_mem_content t)]
    exact congrArg (content t :: ·) ih

@[simp] theorem isBlankLine_record (t : Task) : Text.isBlankLine t.record = false := by
  have opened : ∃ cs, t.record.toList = '\x7b' :: cs :=
    ⟨_, by rw [Task.record, Json.print, String.toList_ofList]; rfl⟩
  obtain ⟨cs, e⟩ := opened
  rw [Text.isBlankLine, e]
  rfl

@[simp] theorem decodeFrom_content (r : Reading) (n : Nat) (t : Task) (rest : List Bytes) :
    decodeFrom r n (content t :: rest) = decodeFrom (r.take t) (n + 1) rest := by
  simp [decodeFrom, content]

theorem decodeFrom_records (r : Reading) (n : Nat) (tasks : List Task) (rest : List Bytes) :
    decodeFrom r n (tasks.map content ++ rest) =
      decodeFrom (tasks.foldl Reading.take r) (n + tasks.length) rest := by
  induction tasks generalizing r n with
  | nil => rfl
  | cons t tasks ih =>
    rw [List.map_cons, List.cons_append, decodeFrom_content, ih, List.length_cons, Nat.add_assoc,
      Nat.add_comm 1, List.foldl_cons]

theorem Reading.IsMap.takeAll {r : Reading} {m : TaskMap} (h : r.IsMap m) (tasks : List Task) :
    (tasks.foldl Reading.take r).IsMap (m.insertAll tasks) := by
  induction tasks generalizing r m with
  | nil => exact h
  | cons t tasks ih => exact ih (h.take t)

/-- A file of records holds their tasks, each in its last version and its first place. -/
@[simp] theorem decode_encode (tasks : List Task) :
    decode (encode tasks) = .ok (TaskMap.empty.insertAll tasks).entries := by
  have lines := lines_encode_append tasks []
  rw [List.append_nil] at lines
  rw [decode, lines, decodeFrom_records, ← (Reading.isMap_empty.takeAll tasks).tasks]
  rfl

end Precedence.Store
