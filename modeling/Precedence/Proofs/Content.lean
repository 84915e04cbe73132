import Precedence.Proofs.Prefix
import Precedence.Proofs.Store
import Mathlib.Data.List.DropRight
/-!
Files that may have been written by hand. A record that is added to a readable file takes its place
among the others, unless the file ends inside a line: then the record is behind what stands there,
and the file can be read no more, except where there are only blanks before the record.
-/
namespace Precedence.Bytes

@[simp] theorem text?_eq_some_iff {b : Bytes} {s : String} : text? b = some s ↔ b = ofText s := by
  constructor
  · intro h
    rw [text?, String.fromUTF8?] at h
    split at h
    · cases h
      simp [ofText, String.fromUTF8]
    · contradiction
  · rintro rfl
    exact text?_ofText s

theorem text?_append {b : Bytes} {s : String} (h : text? b = some s) (more : String) :
    text? (b ++ ofText more) = some (s ++ more) := by
  rw [text?_eq_some_iff.1 h, ← ofText_append, text?_ofText]

theorem lines_ne_nil {b : Bytes} (h : b ≠ []) : b.lines ≠ [] := by
  cases b with
  | nil => contradiction
  | cons c b =>
    rw [lines]
    split
    · simp
    · split <;> simp

/-- What follows a line feed is on lines of its own. -/
theorem lines_append_newline (front rest : Bytes) :
    (front ++ 10 :: rest).lines = (front ++ [10]).lines ++ rest.lines := by
  induction front with
  | nil => simp [lines]
  | cons b front ih =>
    obtain ⟨l, ls, e⟩ := List.exists_cons_of_ne_nil (lines_ne_nil (b := front ++ [10]) (by simp))
    simp only [List.cons_append, lines, ih, e]
    split <;> rfl

/-- The bytes behind the last line feed. -/
def openLine (b : Bytes) : Bytes := b.rtakeWhile (· ≠ 10)

theorem newline_not_mem_openLine (b : Bytes) : 10 ∉ b.openLine := fun there => by
  simpa using List.mem_rtakeWhile_imp there

theorem openLine_append_newline (front : Bytes) {last : Bytes} (h : 10 ∉ last) :
    (front ++ 10 :: last).openLine = last := by
  have taken : ∀ b ∈ last.reverse, decide (b ≠ 10) = true := by
    intro b there
    rw [decide_eq_true_eq]
    rintro rfl
    exact h (List.mem_reverse.1 there)
  rw [openLine, List.rtakeWhile, List.reverse_append, List.reverse_cons, List.append_assoc,
    List.takeWhile_append_of_pos taken]
  simp

theorem exists_ended (b : Bytes) : ∃ ended : Bytes, b = ended ++ b.openLine ∧
    ∀ rest : Bytes, (ended ++ rest).lines = ended.lines ++ rest.lines := by
  refine ⟨b.rdropWhile (· ≠ 10), (List.rdropWhile_append_rtakeWhile ..).symm, fun rest => ?_⟩
  rcases List.eq_nil_or_concat (b.rdropWhile (· ≠ 10)) with e | ⟨front, last, e⟩
  · rw [e]
    rfl
  · have stopped := List.rdropWhile_last_not (p := (· ≠ 10)) b (by rw [e]; simp)
    simp only [e, List.concat_eq_append, List.getLast_append_singleton] at stopped ⊢
    obtain rfl : last = 10 := by simpa using stopped
    rw [List.append_assoc, List.singleton_append, lines_append_newline]

theorem lines_of_noNewline {b : Bytes} (h : 10 ∉ b) (nonempty : b ≠ []) : b.lines = [b] := by
  induction b with
  | nil => contradiction
  | cons c b ih =>
    simp only [List.mem_cons, not_or] at h
    rw [lines, if_neg (Ne.symm h.1)]
    cases b with
    | nil => rfl
    | cons d b => rw [ih h.2 (by simp)]

/-- The bytes of the blanks of JSON. -/
def isGap (b : UInt8) : Bool := b = 32 || b = 10 || b = 9 || b = 13

theorem all_isGap_ofText (s : String) : (ofText s).all isGap = s.toList.all Json.isGap := by
  have encoded (c : Char) : (String.utf8EncodeChar c).all isGap = Json.isGap c := by
    rw [Bool.eq_iff_iff, List.all_eq_true]
    constructor
    · intro gaps
      obtain ⟨b, bs, e⟩ := List.exists_cons_of_ne_nil (String.utf8EncodeChar_ne_nil (c := c))
      have first : b ∈ String.utf8EncodeChar c := by simp [e]
      have same {d : Char} (h : b.toNat = d.toNat) (ascii : d.toNat < 128) : c = d :=
        Char.toNat_inj.1 ((toNat_of_mem_utf8EncodeChar first (h ▸ ascii)).trans h)
      have gap := gaps b first
      simp only [isGap, Bool.or_eq_true, decide_eq_true_eq] at gap
      simp only [Json.isGap, Bool.or_eq_true, decide_eq_true_eq]
      rcases gap with ((rfl | rfl) | rfl) | rfl
      · exact .inl (.inl (.inl (same rfl (by decide))))
      · exact .inl (.inl (.inr (same rfl (by decide))))
      · exact .inl (.inr (same rfl (by decide)))
      · exact .inr (same rfl (by decide))
    · simp only [Json.isGap, Bool.or_eq_true, decide_eq_true_eq]
      rintro (((rfl | rfl) | rfl) | rfl) <;> exact List.all_eq_true.1 (by decide)
  rw [← String.ofList_toList (s := s), ofText_ofList, String.toList_ofList, List.all_flatMap]
  simp only [encoded]

end Precedence.Bytes

namespace Precedence.Json

theorem isBlank_of_isGap {c : Char} (h : isGap c) : Text.isBlank c := by
  simp only [isGap, Bool.or_eq_true, decide_eq_true_eq] at h
  rcases h with ((rfl | rfl) | rfl) | rfl <;> decide

theorem dropGap_of_all {cs : List Char} (h : cs.all isGap) (rest : List Char) :
    dropGap (cs ++ rest) = dropGap rest := by
  rw [dropGap, List.dropWhile_append, List.dropWhile_eq_nil_iff.2 (List.all_eq_true.1 h)]
  rfl

/-- The first character that is no blank of JSON. -/
theorem exists_dropGap {cs : List Char} (h : cs.all isGap = false) : ∃ c rest, c ∈ cs ∧
    isGap c = false ∧ ∀ more, dropGap (cs ++ more) = c :: (rest ++ more) := by
  have left : dropGap cs ≠ [] := by
    rw [dropGap, ne_eq, List.dropWhile_eq_nil_iff, ← List.all_eq_true, h]
    decide
  obtain ⟨c, rest, e⟩ := List.exists_cons_of_ne_nil left
  have first := List.head?_dropWhile_not isGap cs
  rw [← dropGap, e] at first
  refine ⟨c, rest, ?_, by simpa using first, dropGap_append e⟩
  exact (List.dropWhile_suffix isGap).subset (by rw [← dropGap, e]; exact List.mem_cons_self)

end Precedence.Json

namespace Precedence.Task

open Json Record

theorem exists_record (t : Task) : ∃ cs, t.record.toList = '\x7b' :: cs :=
  ⟨_, by rw [Task.record, Json.print, String.toList_ofList]; rfl⟩

theorem ofRecord_of_gaps {s : String} (h : s.toList.all isGap) (t : Task) :
    ofRecord (s ++ t.record) = .ok t := by
  rw [← t.ofRecord_record, ofRecord, ofRecord, whole, whole, task, task, String.toList_append,
    dropGap_of_all h]

/-- A text that begins with neither bracket is no record. -/
theorem ofRecord_of_first {s : String} {c : Char} {rest : List Char}
    (h : dropGap s.toList = c :: rest) (table : c ≠ '\x7b') (list : c ≠ '[') :
    ofRecord s = .error .malformed := by
  have malformed : task s.toList = .error .malformed := by
    rw [task, h]
    split
    · next e => exact absurd (List.cons.inj e).1 table
    · next e => exact absurd (List.cons.inj e).1 list
    · rfl
  rw [ofRecord, whole, malformed]
  rfl

end Precedence.Task

namespace Precedence.Store

open Precedence.Action

theorem decodeFrom_append (r : Reading) (n : Nat) (before after : List Bytes) :
    decodeFrom r n (before ++ after) =
      decodeFrom r n before >>= fun r' => decodeFrom r' (n + before.length) after := by
  induction before generalizing r n with
  | nil => rfl
  | cons l before ih =>
    have next : n + 1 + before.length = n + (before.length + 1) := by omega
    simp only [List.cons_append, decodeFrom, List.length_cons, ← next]
    split
    · rfl
    split
    · exact ih r (n + 1)
    split
    · rfl
    · exact ih _ (n + 1)

@[simp] theorem isBlankLine_append_record (s : String) (t : Task) :
    Text.isBlankLine (s ++ t.record) = false := by
  rw [Text.isBlankLine, String.toList_append, List.all_append]
  have last := isBlankLine_record t
  rw [Text.isBlankLine] at last
  rw [last, Bool.and_false]

/-- A record behind a part of a line that is itself a line the reader accepts. -/
theorem decodeFrom_behind {r r' : Reading} {n : Nat} {part : Bytes}
    (accepted : decodeFrom r n [part] = .ok r') (t : Task) :
    decodeFrom r n [part ++ content t] =
      if part.all Bytes.isGap then .ok (r'.take t) else .error (.record n .malformed) := by
  simp only [decodeFrom] at accepted ⊢
  split at accepted
  · contradiction
  next s isText =>
  rw [content, Bytes.text?_append isText]
  dsimp only
  rw [isBlankLine_append_record, if_neg Bool.false_ne_true, Bytes.text?_eq_some_iff.1 isText,
    Bytes.all_isGap_ofText]
  by_cases gaps : s.toList.all Json.isGap
  · have blank : Text.isBlankLine s := by
      rw [Text.isBlankLine, List.all_eq_true]
      exact fun c there => Json.isBlank_of_isGap (List.all_eq_true.1 gaps c there)
    rw [if_pos blank] at accepted
    cases accepted
    rw [if_pos gaps, Task.ofRecord_of_gaps gaps]
  · rw [if_neg gaps]
    split at accepted
    · next blank =>
      -- A blank that JSON does not know stands before the record.
      obtain ⟨c, rest, there, -, begins⟩ := Json.exists_dropGap (Bool.eq_false_iff.2 gaps)
      have isBlank := List.all_eq_true.1 blank c there
      have first := begins t.record.toList
      rw [← String.toList_append] at first
      have other {d : Char} (h : Text.isBlank d = false) : c ≠ d := by
        rintro rfl
        exact absurd isBlank (by rw [h]; decide)
      rw [Task.ofRecord_of_first first (other (by decide)) (other (by decide))]
    · split at accepted
      · contradiction
      · next u isRecord =>
        obtain ⟨cs, e⟩ := t.exists_record
        rw [Task.ofRecord_append isRecord]
        rw [e]
        rintro ⟨⟩

/-- What a readable file holds when a record has been added to it. -/
theorem decode_append_line {b : Bytes} {tasks : List Task} (accepted : decode b = .ok tasks)
    (t : Task) : decode (b ++ line t) =
      if b.openLine.all Bytes.isGap then .ok (TaskMap.written tasks t)
      else .error (.record b.lines.length .malformed) := by
  obtain ⟨ended, whole, apart⟩ := b.exists_ended
  have before := apart b.openLine
  rw [← whole] at before
  have after : (b ++ line t).lines = ended.lines ++ [b.openLine ++ content t] := by
    have noBreak : 10 ∉ b.openLine ++ content t := by
      simp [Bytes.newline_not_mem_openLine, newline_not_mem_content]
    have last := Bytes.lines_append_cons noBreak []
    rw [line_eq, ← List.append_assoc]
    conv_lhs => rw [whole]
    rw [List.append_assoc, List.append_assoc, apart, ← List.append_assoc, last]
    rfl
  obtain ⟨r', read, rfl⟩ := exists_of_map_eq_ok accepted
  obtain ⟨m, isMap⟩ := isMap_of_decodeFrom Reading.isMap_empty read
  rw [before, decodeFrom_append] at read
  obtain ⟨r, start, last⟩ := exists_of_bind_eq_ok read
  have part : decodeFrom r (1 + ended.lines.length) [b.openLine] = .ok r' := by
    by_cases empty : b.openLine = []
    · rw [empty] at last ⊢
      exact last
    · rwa [Bytes.lines_of_noNewline (Bytes.newline_not_mem_openLine b) empty] at last
  rw [decode, after, decodeFrom_append, start, ok_bind, decodeFrom_behind part]
  by_cases gaps : b.openLine.all Bytes.isGap
  · rw [if_pos gaps, if_pos gaps, Except.map, (isMap.take t).tasks, isMap.tasks]
    rfl
  · have broken : b.openLine ≠ [] := fun e => gaps (by rw [e]; rfl)
    have single := Bytes.lines_of_noNewline (Bytes.newline_not_mem_openLine b) broken
    rw [if_neg gaps, if_neg gaps, before, single, List.length_append, List.length_singleton,
      Nat.add_comm 1]
    rfl

/-! A file with one record and no line feed -/

@[simp] theorem openLine_content (t : Task) : (content t).openLine = content t := by
  rw [Bytes.openLine, List.rtakeWhile_eq_self_iff]
  intro byte there
  simp only [ne_eq, decide_eq_true_eq]
  rintro rfl
  exact newline_not_mem_content t there

@[simp] theorem all_isGap_content (t : Task) : (content t).all Bytes.isGap = false := by
  obtain ⟨cs, e⟩ := t.exists_record
  rw [content, Bytes.all_isGap_ofText, e]
  rfl

@[simp] theorem lines_content (t : Task) : (content t).lines = [content t] := by
  apply Bytes.lines_of_noNewline (newline_not_mem_content t)
  intro empty
  have some_byte := all_isGap_content t
  rw [empty] at some_byte
  contradiction

@[simp] theorem decode_content (t : Task) : decode (content t) = .ok [t] := by
  rw [decode, lines_content, decodeFrom_content]
  rfl

/-! Adding to a file -/

/-- A record can be added to every readable file. The file is readable afterwards, and holds the
tasks it held with the new one among them, exactly if there are no more than blanks behind its last
line feed; else the line that is added is no record, and it is where reading the file fails. -/
theorem load_after_append {s : Store} {d : Disk} {b : Bytes} {tasks : List Task}
    (holds : s.Contains d b) (ready : s.Ready d) (accepted : s.load d = .ok tasks) (t : Task) :
    ∃ d', s.append t d = (.ok (), d') ∧
      s.load d' = if b.openLine.all Bytes.isGap then .ok (TaskMap.written tasks t)
        else .error (.record b.lines.length .malformed) := by
  have ends := append_ends holds t ready.off
  unfold Ends at ends
  split at ends
  · next d' added =>
    refine ⟨d', added, ?_⟩
    have file : s.Contains d' (b ++ line t) := .inr ends.1
    rw [file.load]
    exact decode_append_line (holds.load.symm.trans accepted) t
  · exact absurd ready ends.2

section

open TaskMap

def sampleStore : Store := ⟨⟨"/p/.dagplan", []⟩⟩

/-- A disk with a file in the place of the store's, and with the directories on the way to it. -/
def fileDisk (b : Bytes) : Disk :=
  ⟨[(["p", ".dagplan", "tasks.jsonl"], .file b), (["p", ".dagplan"], .directory),
    (["p"], .directory)]⟩

theorem place_sampleStore : sampleStore.place = ["p", ".dagplan", "tasks.jsonl"] := by
  decide +kernel

theorem noted?_fileDisk (b : Bytes) (l : Location) : (fileDisk b).noted? l =
    if l = sampleStore.place then some (.file b) else (fileDisk []).noted? l := by
  rw [place_sampleStore]
  unfold Disk.noted? fileDisk
  by_cases root : l = []
  · subst root
    rfl
  · by_cases file : l = ["p", ".dagplan", "tasks.jsonl"]
    · simp [file]
    · simp [file, List.lookup_cons, beq_eq_false_iff_ne.2 file]

theorem resolve_fileDisk (b : Bytes) {p : Path} {l : Location}
    (h : (fileDisk []).resolve p = .ok l) : (fileDisk b).resolve p = .ok l := by
  refine Disk.Extends.resolve (fun m directory => ?_) h
  rw [noted?_fileDisk, if_neg]
  · exact directory
  · rintro rfl
    rw [place_sampleStore] at directory
    exact absurd directory (by decide)

@[simp] theorem look_fileDisk (b : Bytes) :
    (fileDisk b).look sampleStore.path = .ok (some (.file b)) := by
  have there : (fileDisk []).resolve sampleStore.path = .ok sampleStore.place :=
    eq_ok_of_toOption (by decide +kernel)
  rw [Disk.look, resolve_fileDisk b there, Except.map, noted?_fileDisk, if_pos rfl]

theorem contains_fileDisk (b : Bytes) : sampleStore.Contains (fileDisk b) b :=
  .inr (look_fileDisk b)

theorem shows_fileDisk (m : TaskMap) : sampleStore.Shows (fileDisk (encode m.entries)) m :=
  ⟨m.entries, .inr (look_fileDisk _), view_entries m⟩

theorem ready_fileDisk (b : Bytes) : sampleStore.Ready (fileDisk b) := by
  have there : (fileDisk []).resolve sampleStore.draft = .ok sampleStore.draft.location :=
    eq_ok_of_toOption (by decide +kernel)
  refine ⟨fileDisk b, rfl, resolve_fileDisk b there, ?_, ?_⟩
  · rw [noted?_fileDisk, if_neg (Ne.symm sampleStore.place_ne_draft)]
    decide +kernel
  · rw [noted?_fileDisk, if_pos rfl]
    rintro ⟨⟩

theorem off_sampleStore : sampleStore.place ∉ sampleStore.directory.way := (ready_fileDisk []).off

theorem load_after_append_behind_record :
    ∃ d', sampleStore.append (sample b "y") (fileDisk (content (sample a "x") ++ [10, 32])) =
        (.ok (), d') ∧
      sampleStore.load d' = .ok [sample a "x", sample b "y"] := by
  have lines : (content (sample a "x") ++ [10, 32]).lines = [content (sample a "x"), [32]] :=
    Bytes.lines_append_cons (newline_not_mem_content _) [32]
  have accepted : sampleStore.load (fileDisk (content (sample a "x") ++ [10, 32])) =
      .ok [sample a "x"] := by
    rw [(contains_fileDisk _).load, decode, lines, decodeFrom_content]
    rfl
  have blank : (content (sample a "x") ++ [10, 32]).openLine = [32] :=
    Bytes.openLine_append_newline _ (by decide)
  obtain ⟨d', added, loaded⟩ :=
    load_after_append (contains_fileDisk _) (ready_fileDisk _) accepted (sample b "y")
  rw [blank] at loaded
  exact ⟨d', added, loaded⟩

/-- A file that has been read, as it ends with a record and no line feed, cannot be read when
another record has been added to it. -/
theorem unreadable_after_append :
    sampleStore.load (fileDisk (content (sample a "x"))) = .ok [sample a "x"] ∧
      ∃ d', sampleStore.append (sample b "y") (fileDisk (content (sample a "x"))) = (.ok (), d') ∧
        sampleStore.load d' = .error (.record 1 .malformed) := by
  have ends := append_ends (contains_fileDisk (content (sample a "x"))) (sample b "y")
    off_sampleStore
  refine ⟨(contains_fileDisk _).load.trans (decode_content _), ?_⟩
  unfold Ends at ends
  split at ends
  · next d' added =>
    have file : sampleStore.Contains d' (content (sample a "x") ++ line (sample b "y")) :=
      .inr ends.1
    refine ⟨d', added, ?_⟩
    rw [file.load, decode_append_line (decode_content _), openLine_content, all_isGap_content,
      lines_content]
    rfl
  · exact absurd (ready_fileDisk _) ends.2

end

/-! Writing a file anew -/

theorem decode_encode_of_decode {b : Bytes} {tasks : List Task} (h : decode b = .ok tasks) :
    decode (encode tasks) = .ok tasks := by
  obtain ⟨m, rfl⟩ := exists_map_of_decode h
  simp

theorem compact_ends {s : Store} {d : Disk} {b : Bytes} {tasks : List Task}
    (holds : s.Contains d b) (accepted : decode b = .ok tasks) (off : s.place ∉ s.directory.way) :
    Ends s.compact d (fun n d' => n = tasks.length ∧ s.Holds d' tasks)
      (fun d' => s.Contains d' b ∧ ¬ s.Ready d) := by
  apply ends_afterLoad (holds.load.trans accepted)
  refine .bind ((s.writeAll_ends tasks off).mono (fun _ d' done => ?_) fun d' failed => ?_)
  · exact ends_pure ⟨rfl, done.1⟩
  · exact ⟨holds.spared failed.1, failed.2⟩

/-- The record of a task has no line break and is read back as the task, so a line that has been
read and is written anew is read as it was, and writing the file anew changes no task in it. -/
theorem records_read_back :
    (∀ t : Task, (∀ c ∈ t.record.toList, 32 ≤ c.toNat) ∧ Task.ofRecord t.record = .ok t) ∧
    (∀ {text : String} {t : Task}, Task.ofRecord text = .ok t →
      Task.ofRecord t.record = Task.ofRecord text) ∧
    ∀ {s : Store} {d : Disk} {b : Bytes} {tasks : List Task}, s.Contains d b →
      s.place ∉ s.directory.way → s.load d = .ok tasks →
        s.load (s.compact d).2 = .ok tasks ∧
          (s.Ready d → ∃ d', s.compact d = (.ok tasks.length, d') ∧ s.Holds d' tasks) := by
  refine ⟨fun t => ⟨?_, t.ofRecord_record⟩, fun {_ t} read => by rw [read, t.ofRecord_record], ?_⟩
  · rw [Task.record, Json.print, String.toList_ofList]
    exact Json.printable_document t
  · intro s d b tasks holds off loaded
    have accepted := holds.load.symm.trans loaded
    have ends := compact_ends holds accepted off
    unfold Ends at ends
    split at ends
    · next n d' written =>
      obtain ⟨rfl, holds'⟩ := ends
      have same := holds'.contains.load.trans (decode_encode_of_decode accepted)
      rw [written]
      exact ⟨same, fun _ => ⟨d', rfl, holds'⟩⟩
    · next fault d' failed =>
      rw [failed]
      exact ⟨ends.1.load.trans accepted, fun ready => absurd ready ends.2⟩

open TaskMap in
theorem records_read_back_from_unended_file :
    (∀ c ∈ (sample a "\"\n\\").record.toList, 32 ≤ c.toNat) ∧
      Task.ofRecord (sample a "\"\n\\").record = .ok (sample a "\"\n\\") ∧
      Task.ofRecord (sample b "y").record = Task.ofRecord (" " ++ (sample b "y").record) ∧
      sampleStore.load (sampleStore.compact (fileDisk (content (sample a "x")))).2 =
        .ok [sample a "x"] := by
  have read : Task.ofRecord (" " ++ (sample b "y").record) = .ok (sample b "y") :=
    Task.ofRecord_of_gaps (by decide) _
  have loaded : sampleStore.load (fileDisk (content (sample a "x"))) = .ok [sample a "x"] :=
    (contains_fileDisk _).load.trans (decode_content _)
  obtain ⟨each, again, anew⟩ := records_read_back
  exact ⟨(each _).1, (each _).2, again read,
    (anew (contains_fileDisk _) off_sampleStore loaded).1⟩

end Precedence.Store
