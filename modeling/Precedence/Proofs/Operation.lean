import Precedence.Proofs.Store
/-!
Runs of operations on a store. Whatever the operations and the tasks in them are, the store answers
and shows what a map does that keeps the order in which identifiers came in.
-/
namespace Precedence

inductive Operation where
  | writeAll (tasks : List Task)
  | append (t : Task)
  | update (t : Task)
  | updateMany (tasks : List Task)
  | remove (id : TaskId)
  | compact

inductive Reply where
  | done
  | removed (was : Bool)
  | counted (n : Nat)
  deriving DecidableEq, Repr

namespace Operation

def run (s : Store) : Operation → Action Reply
  | writeAll tasks => do s.writeAll tasks; return .done
  | append t => do s.append t; return .done
  | update t => do s.update t; return .done
  | updateMany tasks => do s.updateMany tasks; return .done
  | remove id => do return .removed (← s.remove id)
  | compact => do return .counted (← s.compact)

def apply (m : TaskMap) : Operation → TaskMap
  | writeAll tasks => TaskMap.empty.insertAll tasks
  | append t => m.insert t
  | update t => m.insert t
  | updateMany tasks => m.insertAll tasks
  | remove id => m.erase id
  | compact => m

def reply (m : TaskMap) : Operation → Reply
  | remove id => .removed (m.has id)
  | compact => .counted m.entries.length
  | _ => .done

/-- The disk after operations one after the other, whether or not they fail. -/
def after (s : Store) (d : Disk) (os : List Operation) : Disk :=
  os.foldl (fun d o => (o.run s d).2) d

/-- What is observed of a store under operations one after the other: the reply to each, or nothing
where it fails, and the tasks that are read afterwards. -/
def observed (s : Store) (d : Disk) :
    List Operation → List (Option Reply × Except Failure (List Task))
  | [] => []
  | o :: rest =>
    ((o.run s d).1.toOption, s.load (o.run s d).2) :: observed s (o.run s d).2 rest

def applyIf (m : TaskMap) (x : Operation × Bool) : TaskMap := if x.2 then x.1.apply m else m

/-- What is observed of a map under operations that are done or are not. -/
def trace (m : TaskMap) : List (Operation × Bool) → List (Option Reply × Except Failure (List Task))
  | [] => []
  | x :: rest =>
    (if x.2 then some (x.1.reply m) else none, .ok (applyIf m x).entries) ::
      trace (applyIf m x) rest

theorem does_run {s : Store} {d : Disk} {m : TaskMap} (off : s.place ∉ s.directory.way)
    (h : s.Shows d m) (o : Operation) : s.Does d m (o.run s) (o.reply m) (o.apply m) := by
  cases o with
  | writeAll tasks => exact (Store.does_writeAll off h tasks).bind rfl
  | append t => exact (Store.does_append off h t).bind rfl
  | update t => exact (Store.does_update off h t).bind rfl
  | updateMany tasks => exact (Store.does_updateMany off h tasks).bind rfl
  | remove id => exact (Store.does_remove off h id).bind rfl
  | compact => exact (Store.does_compact off h).bind rfl

/-- An operation is done and replied to as on a map, or it fails and nothing is seen of it; on a
disk that is ready it is done, and the disk stays ready. -/
theorem run_cases {s : Store} {d : Disk} {m : TaskMap} (off : s.place ∉ s.directory.way)
    (h : s.Shows d m) (o : Operation) :
    ∃ b, (o.run s d).1.toOption = (if b then some (o.reply m) else none) ∧
      s.Shows (o.run s d).2 (applyIf m (o, b)) ∧ (s.Ready d → b ∧ s.Ready (o.run s d).2) := by
  have ends := does_run off h o
  unfold Store.Does Action.Ends at ends
  split at ends
  · next e =>
    obtain ⟨rfl, shows, ready⟩ := ends
    exact ⟨true, by rw [e]; rfl, by rw [e]; exact shows, fun r => ⟨rfl, by rw [e]; exact ready r⟩⟩
  · next e =>
    obtain ⟨shows, notReady⟩ := ends
    exact ⟨false, by rw [e]; rfl, by rw [e]; exact shows, fun r => absurd r notReady⟩

/-- Whether or not operations are done, what is not done leaves no trace. -/
theorem exists_trace {s : Store} {d : Disk} {m : TaskMap} (off : s.place ∉ s.directory.way)
    (h : s.Shows d m) (os : List Operation) :
    ∃ done : List Bool, done.length = os.length ∧ observed s d os = trace m (os.zip done) ∧
      s.Shows (after s d os) ((os.zip done).foldl applyIf m) := by
  induction os generalizing d m with
  | nil => exact ⟨[], rfl, rfl, h⟩
  | cons o os ih =>
    obtain ⟨b, reply, shows, -⟩ := run_cases off h o
    obtain ⟨done, length, rest, shows'⟩ := ih shows
    refine ⟨b :: done, by simp [length], ?_, shows'⟩
    rw [observed, reply, shows.load, rest]
    rfl

theorem trace_of_ready {s : Store} {d : Disk} {m : TaskMap} (ready : s.Ready d) (h : s.Shows d m)
    (os : List Operation) : observed s d os = trace m (os.map (·, true)) ∧
      s.Shows (after s d os) (os.foldl apply m) := by
  induction os generalizing d m with
  | nil => exact ⟨rfl, h⟩
  | cons o os ih =>
    obtain ⟨b, reply, shows, next⟩ := run_cases ready.off h o
    obtain ⟨rfl, ready'⟩ := next ready
    obtain ⟨rest, shows'⟩ := ih ready' shows
    refine ⟨?_, shows'⟩
    rw [observed, reply, shows.load, rest]
    rfl

/-- Appending tasks one by one does to a map what writing them together does. -/
theorem foldl_append (m : TaskMap) (tasks : List Task) :
    (tasks.map append).foldl apply m = (updateMany tasks).apply m := by
  induction tasks generalizing m with
  | nil => rfl
  | cons t tasks ih => exact ih (m.insert t)

/-- From an absent file on, on a disk where the file can be written, operations one after the other
are observed as they are on a map that is empty at first, and each task that is asked for is the one
of the map; records that are appended one by one and records that are written together show the same
tasks. Where operations can fail, those that do are as if they had not been asked for. -/
theorem observed_as_map {s : Store} {d : Disk} (absent : d.noted? s.path.location = none)
    (os : List Operation) :
    (s.Ready d → observed s d os = trace .empty (os.map (·, true)) ∧
      (∀ id, (s.get? id (after s d os)).1 = .ok ((os.foldl apply .empty).find? id)) ∧
      ∀ tasks, s.load (after s d (os ++ tasks.map append)) =
        s.load (after s d (os ++ [updateMany tasks]))) ∧
    (s.path.location ∉ s.directory.way →
      ∃ done : List Bool, done.length = os.length ∧ observed s d os = trace .empty (os.zip done) ∧
        ∀ id, (s.get? id (after s d os)).1 =
          .ok (((os.zip done).foldl applyIf .empty).find? id)) := by
  have start := Store.shows_of_absent absent
  refine ⟨fun ready => ?_, fun off => ?_⟩
  · have shows (more : List Operation) := (trace_of_ready ready start more).2
    refine ⟨(trace_of_ready ready start os).1, fun id => by rw [(shows os).get?], fun tasks => ?_⟩
    rw [(shows _).load, (shows _).load, List.foldl_append, List.foldl_append, foldl_append]
    rfl
  · obtain ⟨done, length, same, shows⟩ := exists_trace off start os
    exact ⟨done, length, same, fun id => by rw [shows.get?]⟩

open TaskMap in
theorem observed_as_map_in_new_directory :
    Disk.noted? {} (Store.path ⟨⟨"/p/.dagplan", []⟩⟩).location = none ∧
      Store.Ready ⟨⟨"/p/.dagplan", []⟩⟩ {} ∧
      observed ⟨⟨"/p/.dagplan", []⟩⟩ {}
        [append (sample a "x"), append (sample a "y"), compact, remove a, compact] =
          [(some .done, .ok [sample a "x"]), (some .done, .ok [sample a "y"]),
            (some (.counted 1), .ok [sample a "y"]), (some (.removed true), .ok []),
            (some (.counted 0), .ok [])] := by
  have absent : Disk.noted? {} (Store.path ⟨⟨"/p/.dagplan", []⟩⟩).location = none := by
    decide +kernel
  have ready : Store.Ready ⟨⟨"/p/.dagplan", []⟩⟩ {} :=
    ⟨⟨[(["p", ".dagplan"], .directory), (["p"], .directory)]⟩, rfl, by decide +kernel,
      by decide +kernel, by decide +kernel⟩
  exact ⟨absent, ready, ((observed_as_map absent _).1 ready).1⟩

end Operation
end Precedence
