import Precedence.Project
import Precedence.Proofs.Replica
import Precedence.Proofs.Store
/-!
The replica of a project after it was filled from the store: it holds what the store holds, and
filling it has not changed the store.
-/
namespace Precedence

namespace ReplicaFile

open Precedence.Action

theorem place_ne (f : ReplicaFile) : f.store.place ≠ f.path.location :=
  f.store.place_ne_join f.directory (by constructor <;> decide) (by decide)

theorem content_of_write {f : ReplicaFile} {i : Replica.Image} {d d' : Disk}
    (short : ¬ pathLimit < (Path.ofLocation f.path.location).text.utf8ByteSize)
    (h : d.writeReplica f.path i = .ok d') : f.content d' = .ok (.image i) := by
  rw [content, if_neg short, Disk.look_of_place h]

theorem short_of_load {f : ReplicaFile} {t : Replica.Table} {r : Replica} {d : Disk}
    (h : f.load t d = .ok r) :
    ¬ pathLimit < (Path.ofLocation f.path.location).text.utf8ByteSize := by
  intro long
  rw [load, image, content, if_pos long] at h
  contradiction

theorem writable_eq_ok {f : ReplicaFile} {d d' : Disk} (h : f.ensureWritable d = (.ok (), d')) :
    d' = d := by
  obtain ⟨x, c, got, rest⟩ := bind_eq_ok h
  rw [get_run, Prod.mk.injEq] at got
  obtain ⟨-, rfl⟩ := got
  split at rest
  · cases congrArg Prod.fst rest
  · exact (pure_eq_ok rest).2

theorem write_eq_ok {f : ReplicaFile} {i : Replica.Image} {d d' : Disk}
    (h : f.write i d = (.ok (), d')) : d.writeReplica f.path i = .ok d' := by
  unfold write at h
  split at h
  · next e => rw [e, (Prod.mk.inj h).2]
  · cases congrArg Prod.fst h

/-- A replica that was put in place is found there, whichever of its tables is asked for, and the
store holds what it held. -/
theorem replace_ok {f : ReplicaFile} {r : Replica} {d d' : Disk}
    (h : f.replace r d = (.ok (), d')) :
    (∀ t, f.load t d' = .ok r) ∧ d'.find? f.store.path = d.find? f.store.path := by
  obtain ⟨old, c, read, h₁⟩ := bind_eq_ok h
  obtain ⟨loaded, rfl⟩ := ask_eq_ok read
  obtain ⟨_, c', writable, h₂⟩ := bind_eq_ok h₁
  obtain rfl := writable_eq_ok writable
  obtain ⟨i, c'', imaged, h₃⟩ := bind_eq_ok h₂
  obtain ⟨-, rfl⟩ := ask_eq_ok imaged
  have written := write_eq_ok h₃
  obtain ⟨-, free, put⟩ := Disk.place_ok written
  refine ⟨fun t => ?_, ?_⟩
  · rw [load, image, content_of_write (short_of_load loaded) written]
    rfl
  · rw [put]
    exact Disk.find?_put_ne free (by simp) f.place_ne

/-- A replica that was filled holds the tasks of the store, and the store holds what it held. -/
theorem refill_ok {f : ReplicaFile} {d d' : Disk} (h : f.refill d = (.ok (), d')) :
    ∃ tasks revision, f.store.load d = .ok tasks ∧ f.store.revision d = .ok revision ∧
      (∀ t, f.load t d' = .ok (.ofTasks tasks revision)) ∧
      d'.find? f.store.path = d.find? f.store.path := by
  obtain ⟨revision, c, current, h₁⟩ := bind_eq_ok h
  obtain ⟨current, rfl⟩ := ask_eq_ok current
  obtain ⟨tasks, c', read, filled⟩ := bind_eq_ok h₁
  obtain ⟨read, rfl⟩ := ask_eq_ok read
  obtain ⟨found, same⟩ := replace_ok filled
  exact ⟨tasks, revision, read, current, found, same⟩

theorem open_eq_ok {root : Path} {f : ReplicaFile} {d d' : Disk}
    (h : ReplicaFile.open root d = (.ok f, d')) : f = ⟨root⟩ := by
  obtain ⟨_, _, -, h₁⟩ := bind_eq_ok h
  obtain ⟨_, _, -, h₂⟩ := bind_eq_ok h₁
  obtain ⟨_, _, -, h₃⟩ := bind_eq_ok h₂
  obtain ⟨_, _, -, h₄⟩ := bind_eq_ok h₃
  split at h₄
  · obtain ⟨_, _, -, h₅⟩ := bind_eq_ok h₄
    obtain ⟨_, _, -, h₆⟩ := bind_eq_ok h₅
    exact (pure_eq_ok h₆).1.symm
  · exact (pure_eq_ok h₄).1.symm

end ReplicaFile

namespace Project

open Precedence.Action

/-- A replica that was opened and filled holds the tasks of the store. -/
theorem refilledReplica_ok {p : Project} {f : ReplicaFile} {d d' : Disk}
    (h : p.refilledReplica d = (.ok f, d')) : ∃ tasks revision,
      p.store.load d' = .ok tasks ∧ ∀ t, f.load t d' = .ok (.ofTasks tasks revision) := by
  obtain ⟨g, c, opened, h₁⟩ := bind_eq_ok h
  obtain ⟨_, c', refilled, h₂⟩ := bind_eq_ok h₁
  obtain ⟨rfl, rfl⟩ := pure_eq_ok h₂
  obtain ⟨tasks, revision, read, -, found, same⟩ := ReplicaFile.refill_ok refilled
  obtain rfl := ReplicaFile.open_eq_ok opened
  exact ⟨tasks, revision, (Store.load_congr same).trans read, found⟩

def sample : Project := { root := ⟨"/p", []⟩, settings := {}, shared := { options := {} } }

end Project
end Precedence
