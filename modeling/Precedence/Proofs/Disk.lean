import Precedence.Disk
import Precedence.Proofs.Numeral
/-!
What operations on a disk leave alone. Directories stay where they are, whatever is done, so a path
that leads somewhere goes on leading there; and a change is seen at the places on its way only.
-/
namespace Precedence.Path

theorem join_text (p : Path) (name : String) :
    ∃ front : String, (p.join name).text = front ++ name ∧
      ∀ other, (p.join other).text = front ++ other := by
  unfold join
  split
  · exact ⟨"", by simp, by simp⟩
  split
  · exact ⟨p.text, rfl, fun _ => rfl⟩
  · exact ⟨p.text ++ "/", rfl, fun _ => rfl⟩

theorem startsWith_iff (s : String) : s.startsWith '/' = true ↔ s.toList.head? = some '/' := by
  rw [String.startsWith_char_eq_head?]
  simp

theorem endsWith_iff (s : String) : s.endsWith '/' = true ↔ s.toList.getLast? = some '/' := by
  rw [String.endsWith_char_eq_getLast?]
  simp

/-- A name that can stand in a directory: not empty, without a slash, and none of the steps that
lead elsewhere. -/
structure IsName (name : String) : Prop where
  ne_empty : name ≠ ""
  noSlash : '/' ∉ name.toList
  ne_dot : name ≠ "."
  ne_dots : name ≠ ".."

theorem toList_ne_nil {s : String} (h : s ≠ "") : s.toList ≠ [] := fun e =>
  h (String.toList_inj.1 e)

theorem origin_join (p : Path) {name : String} (h : IsName name) :
    (p.join name).origin = p.origin := by
  have same : (p.join name).text.startsWith '/' = p.text.startsWith '/' := by
    rw [Bool.eq_iff_iff, startsWith_iff, startsWith_iff]
    unfold join
    split
    · next e =>
      rw [e]
      constructor
      · exact fun head => absurd (List.mem_of_head? head) h.noSlash
      · rintro ⟨⟩
    · next e =>
      obtain ⟨c, cs, text⟩ := List.exists_cons_of_ne_nil (toList_ne_nil e)
      split <;> simp [text]
  rw [origin, origin, same]
  rfl

/-- The steps of a path with a name behind it, up to an empty step in between. -/
theorem steps_join (p : Path) : ∃ before, (p.steps = before ∨ p.steps = before ++ [""]) ∧
    ∀ name, IsName name → (p.join name).steps = before ++ [name] := by
  have last {name : String} (h : IsName name) : name.toList.splitOn '/' = [name.toList] :=
    List.splitOn_eq_singleton h.noSlash
  unfold join
  split
  · next e =>
    refine ⟨[], .inr ?_, fun name h => ?_⟩
    · simp [steps, e]
    · simp [steps, last h]
  split
  · next e =>
    obtain ⟨front, text⟩ := List.getLast?_eq_some_iff.1 ((endsWith_iff _).1 e)
    refine ⟨(front.splitOn '/').map String.ofList, .inr ?_, fun name h => ?_⟩
    · simp [steps, text, List.splitOn_append_cons_self]
    · simp [steps, text, List.splitOn_append_cons_self, last h]
  · refine ⟨p.steps, .inl rfl, fun name h => ?_⟩
    simp [steps, List.splitOn_append_cons_self, last h]

end Precedence.Path

namespace Precedence.Location

theorem step_name (l : Location) {name : String} (h : Path.IsName name) :
    l.step name = l ++ [name] := by
  rw [step, if_neg (by simp [isIdle, h.ne_empty, h.ne_dot]), if_neg h.ne_dots]

theorem way_append (l : Location) (before after : List String) :
    l.way (before ++ after) = l.way before ++ (before.foldl step l).way after := by
  induction before generalizing l with
  | nil => rfl
  | cons s before ih => exact congrArg (l.step s :: ·) (ih _)

end Precedence.Location

namespace Precedence.Path

theorem location_join (p : Path) {name : String} (h : IsName name) :
    (p.join name).location = p.location ++ [name] := by
  -- A path that ends in a slash has an empty step there, which the name takes the place of.
  obtain ⟨before, e, joined⟩ := p.steps_join
  rw [location, location, origin_join p h, joined name h, List.foldl_append]
  apply (Location.step_name _ h).trans
  rcases e with e | e
  · rw [e]
  · rw [e, List.foldl_append]
    rfl

theorem join_ne_join (p q : Path) {a b : String} (ha : IsName a) (hb : IsName b) (other : a ≠ b) :
    (p.join a).location ≠ (q.join b).location := by
  rw [location_join p ha, location_join q hb]
  intro same
  exact other (List.singleton_inj.1 (List.append_inj' same rfl).2)

theorem mem_way_join {p : Path} {name : String} (h : IsName name) {l : Location}
    (on : l ∈ (p.join name).way) : l ∈ p.way ∨ l = (p.join name).location := by
  obtain ⟨before, e, joined⟩ := p.steps_join
  rw [way, origin_join p h, joined name h, Location.way_append] at on
  refine (List.mem_append.1 on).imp (fun on => ?_) fun last => ?_
  · rw [way]
    rcases e with e | e
    · rwa [e]
    · rw [e, Location.way_append]
      exact List.mem_append_left _ on
  · rw [location, origin_join p h, joined name h, List.foldl_append]
    exact List.mem_singleton.1 last

/-- Of two names below one path, the longer one is the only one that can be at fault. -/
theorem pathFault?_join {p : Path} {name longer : String}
    (size : name.utf8ByteSize ≤ longer.utf8ByteSize) (clean : '\x00' ∉ name.toList)
    (h : Disk.pathFault? (p.join longer) = none) : Disk.pathFault? (p.join name) = none := by
  obtain ⟨front, e, text⟩ := p.join_text longer
  have e' := text name
  unfold Disk.pathFault? at h ⊢
  rw [e] at h
  rw [e']
  split at h
  · contradiction
  · next clean' =>
    split at h
    · contradiction
    · next short =>
      rw [if_neg, if_neg]
      · rw [String.utf8ByteSize_append] at short ⊢
        omega
      · simp_all

end Precedence.Path

namespace Precedence.Disk

def Extends (d d' : Disk) : Prop :=
  ∀ l, d.noted? l = some .directory → d'.noted? l = some .directory

theorem Extends.refl (d : Disk) : d.Extends d := fun _ h => h

theorem Extends.trans {a b c : Disk} (h : a.Extends b) (h' : b.Extends c) : a.Extends c :=
  fun l hl => h' l (h l hl)

theorem walk_append (d : Disk) (l : Location) (before after : List String) :
    d.walk l (before ++ after) = d.walk l before >>= fun m => d.walk m after := by
  induction before generalizing l with
  | nil => rfl
  | cons s before ih =>
    rw [List.cons_append, walk, walk]
    split
    · split
      · rfl
      · exact ih _
    · rfl
    · rfl

theorem eq_foldl_of_walk {d : Disk} {l m : Location} {steps : List String}
    (h : d.walk l steps = .ok m) : m = steps.foldl Location.step l := by
  induction steps generalizing l with
  | nil => exact (Except.ok.inj h).symm
  | cons s rest ih =>
    rw [walk] at h
    split at h
    · split at h
      · contradiction
      · exact ih h
    · contradiction
    · contradiction

theorem eq_location_of_resolve {d : Disk} {p : Path} {l : Location} (h : d.resolve p = .ok l) :
    l = p.location := by
  rw [resolve] at h
  split at h
  · contradiction
  split at h
  · contradiction
  · exact eq_foldl_of_walk h

theorem pathFault?_of_resolve {d : Disk} {p : Path} {l : Location} (h : d.resolve p = .ok l) :
    pathFault? p = none := by
  rw [resolve] at h
  split at h
  · contradiction
  · assumption

theorem Extends.walk {d d' : Disk} (h : d.Extends d') {l m : Location} {steps : List String}
    (ok : d.walk l steps = .ok m) : d'.walk l steps = .ok m := by
  induction steps generalizing l with
  | nil => exact ok
  | cons s rest ih =>
    rw [Disk.walk] at ok ⊢
    split at ok
    · next here =>
      rw [h l here]
      split at ok
      · contradiction
      · next short => simpa only [if_neg short] using ih ok
    · contradiction
    · contradiction

theorem Extends.resolve {d d' : Disk} (h : d.Extends d') {p : Path} {l : Location}
    (ok : d.resolve p = .ok l) : d'.resolve p = .ok l := by
  rw [Disk.resolve] at ok ⊢
  split at ok
  · contradiction
  · next clean =>
    split at ok
    · contradiction
    · next nonempty =>
      rw [if_neg nonempty]
      exact h.walk ok

theorem walk_of_resolve {d : Disk} {p : Path} {l : Location} (h : d.resolve p = .ok l) :
    d.walk p.origin p.steps = .ok l := by
  rw [resolve] at h
  split at h
  · contradiction
  split at h
  · contradiction
  · exact h

/-- Where a name below a path can be reached, the path leads to a directory. -/
theorem walk_of_resolve_join {d : Disk} {p : Path} {name : String} (h : Path.IsName name)
    {l : Location} (there : d.resolve (p.join name) = .ok l) :
    d.walk p.origin p.steps = .ok p.location ∧ d.noted? p.location = some .directory := by
  obtain ⟨before, e, joined⟩ := p.steps_join
  rw [resolve] at there
  split at there
  · contradiction
  split at there
  · contradiction
  rw [p.origin_join h, joined name h, walk_append] at there
  cases reached : d.walk p.origin before with
  | error fault => rw [reached] at there; contradiction
  | ok m =>
    rw [reached, ok_bind, walk] at there
    have last : d.noted? m = some .directory := by
      split at there
      · assumption
      · contradiction
      · contradiction
    have whole : d.walk p.origin p.steps = .ok m := by
      rcases e with e | e
      · rw [e, reached]
      · rw [e, walk_append, reached, ok_bind, walk, last]
        rfl
    obtain rfl : m = p.location := eq_foldl_of_walk whole
    exact ⟨whole, last⟩

/-- The steps before a name below a directory lead to the directory. -/
theorem walk_before {d : Disk} {p : Path} {name : String} (h : Path.IsName name)
    (there : d.walk p.origin p.steps = .ok p.location) : ∃ before,
      d.walk p.origin before = .ok p.location ∧ (p.join name).steps = before ++ [name] := by
  obtain ⟨before, e, joined⟩ := p.steps_join
  refine ⟨before, ?_, joined name h⟩
  rcases e with e | e
  · rwa [← e]
  · rw [e, walk_append] at there
    cases reached : d.walk p.origin before with
    | error fault => rw [reached] at there; contradiction
    | ok m =>
      have same : p.location = m := by
        rw [Path.location, e, List.foldl_append, eq_foldl_of_walk reached]
        rfl
      rw [same]

theorem resolve_join {d : Disk} {p : Path} {name : String} (h : Path.IsName name)
    (short : name.utf8ByteSize ≤ 255) (fits : pathFault? (p.join name) = none)
    (there : d.walk p.origin p.steps = .ok p.location)
    (directory : d.noted? p.location = some .directory) :
    d.resolve (p.join name) = .ok (p.join name).location := by
  obtain ⟨before, reached, joined⟩ := walk_before h there
  have nonempty : (p.join name).text ≠ "" := by
    obtain ⟨front, text, -⟩ := p.join_text name
    rw [text]
    exact fun e => h.ne_empty (String.append_eq_empty_iff.1 e).2
  rw [resolve, fits]
  dsimp only
  rw [if_neg nonempty, p.origin_join h, joined, walk_append, reached, ok_bind, walk, directory,
    p.location_join h]
  dsimp only
  rw [if_neg (Nat.not_lt.2 short), Location.step_name _ h]
  rfl

/-- One disk comes from the other by changes that keep all directories and spare a place. -/
structure Spares (place : Location) (d d' : Disk) : Prop where
  keeps : d.Extends d'
  same : d'.noted? place = d.noted? place

theorem Spares.refl (place : Location) (d : Disk) : Spares place d d := ⟨.refl d, rfl⟩

theorem Spares.trans {place : Location} {a b c : Disk} (h : Spares place a b)
    (h' : Spares place b c) : Spares place a c :=
  ⟨h.keeps.trans h'.keeps, h'.same.trans h.same⟩

theorem Spares.look {d d' : Disk} {p : Path} (h : Spares p.location d d') {e : Option Entry}
    (ok : d.look p = .ok e) : d'.look p = .ok e := by
  rw [Disk.look] at ok ⊢
  cases there : d.resolve p with
  | error fault => rw [there] at ok; contradiction
  | ok l =>
    rw [there] at ok
    obtain rfl := eq_location_of_resolve there
    rw [h.keeps.resolve there, ← ok]
    exact congrArg Except.ok h.same

theorem extends_put {d : Disk} {l : Location} {e : Entry}
    (h : d.noted? l ≠ some .directory) : d.Extends (d.put l e) := by
  intro m dir
  rwa [noted?_put_ne]
  rintro rfl
  exact h dir

theorem extends_put_directory (d : Disk) (l : Location) : d.Extends (d.put l .directory) := by
  intro m dir
  by_cases same : m = l
  · subst same
    by_cases root : m = []
    · subst root
      rfl
    · exact noted?_put_self d root _
  · rwa [noted?_put_ne d same]

theorem extends_erase {d : Disk} {l : Location} (h : d.noted? l ≠ some .directory) :
    d.Extends (d.erase l) := by
  intro m dir
  rwa [noted?_erase_ne]
  rintro rfl
  exact h dir

theorem noted?_erase_self (d : Disk) {l : Location} (h : l ≠ []) : (d.erase l).noted? l = none := by
  have none (es : List (Location × Entry)) : (es.filter (·.1 ≠ l)).lookup l = none := by
    rw [List.lookup_eq_none_iff]
    intro e he
    have := (List.mem_filter.1 he).2
    simp only [ne_eq, decide_not, Bool.not_eq_true', decide_eq_false_iff_not] at this
    exact bne_iff_ne.2 (Ne.symm this)
  rw [noted?, if_neg h]
  exact none d.entries

theorem spares_put {d : Disk} {l place : Location} {e : Entry}
    (h : d.noted? l ≠ some .directory) (other : place ≠ l) : Spares place d (d.put l e) :=
  ⟨extends_put h, noted?_put_ne d other e⟩

theorem spares_erase {d : Disk} {l place : Location} (h : d.noted? l ≠ some .directory)
    (other : place ≠ l) : Spares place d (d.erase l) :=
  ⟨extends_erase h, noted?_erase_ne d other⟩

/-! Placing files -/

theorem place_ok {d d' : Disk} {p : Path} {e : Option Entry → Entry} (h : d.place p e = .ok d') :
    d.resolve p = .ok p.location ∧ d.noted? p.location ≠ some .directory ∧
      d' = d.put p.location (e (d.noted? p.location)) := by
  rw [place] at h
  split at h
  · contradiction
  cases there : d.resolve p with
  | error fault => rw [there] at h; contradiction
  | ok l =>
    obtain rfl := eq_location_of_resolve there
    rw [there] at h
    simp only [ok_bind, pure, Except.pure] at h
    split at h
    · contradiction
    · next free => exact ⟨rfl, free, (Except.ok.inj h).symm⟩

theorem place_eq_ok {d : Disk} {p : Path} (e : Option Entry → Entry)
    (name : p.text.endsWith '/' = false) (there : d.resolve p = .ok p.location)
    (free : d.noted? p.location ≠ some .directory) :
    d.place p e = .ok (d.put p.location (e (d.noted? p.location))) := by
  rw [place, name, there]
  simp [pure, Except.pure, free]

theorem ne_nil_of_free {d : Disk} {l : Location} (free : d.noted? l ≠ some .directory) :
    l ≠ [] := by
  rintro rfl
  exact free rfl

theorem place_spares {d d' : Disk} {p : Path} {e : Option Entry → Entry} {place : Location}
    (h : d.place p e = .ok d') (other : place ≠ p.location) : Spares place d d' := by
  obtain ⟨-, free, rfl⟩ := place_ok h
  exact spares_put free other

theorem look_of_place {d d' : Disk} {p : Path} {e : Option Entry → Entry}
    (h : d.place p e = .ok d') : d'.look p = .ok (some (e (d.noted? p.location))) := by
  obtain ⟨there, free, rfl⟩ := place_ok h
  rw [look, (extends_put free).resolve there]
  exact congrArg Except.ok (noted?_put_self d (ne_nil_of_free free) _)

theorem noted?_of_look {d : Disk} {p : Path} {e : Option Entry} (h : d.look p = .ok e) :
    d.resolve p = .ok p.location ∧ d.noted? p.location = e := by
  rw [look] at h
  cases there : d.resolve p with
  | error fault => rw [there] at h; contradiction
  | ok l =>
    obtain rfl := eq_location_of_resolve there
    rw [there] at h
    exact ⟨rfl, Except.ok.inj h⟩

theorem look_of_find? {d : Disk} {p : Path} {e : Entry} (h : d.find? p = some e) :
    d.look p = .ok (some e) := by
  unfold find? at h
  split at h
  · next looked => rw [looked, h]
  · contradiction

theorem resolve_of_isDirectory {d : Disk} {p : Path} (h : d.isDirectory p) :
    d.resolve p = .ok p.location ∧ d.noted? p.location = some .directory := by
  exact noted?_of_look (look_of_find? (eq_of_beq h))

theorem Extends.isDirectory {d d' : Disk} {p : Path} (h : d.Extends d') (there : d.isDirectory p) :
    d'.isDirectory p := by
  obtain ⟨reached, directory⟩ := resolve_of_isDirectory there
  rw [Disk.isDirectory, find?, look, h.resolve reached]
  exact beq_iff_eq.2 (h _ directory)

theorem read_of_look {d : Disk} {p : Path} {content : Bytes}
    (h : d.look p = .ok (some (.file content))) : d.read p = .ok content := by
  rw [read, h]
  rfl

theorem look_of_read {d : Disk} {p : Path} {content : Bytes} (h : d.read p = .ok content) :
    d.look p = .ok (some (.file content)) := by
  rw [read] at h
  cases looked : d.look p with
  | error fault => rw [looked] at h; contradiction
  | ok e =>
    rw [looked, ok_bind] at h
    split at h
    · rw [Except.ok.inj h]
    · contradiction
    · contradiction
    · contradiction

theorem exists?_of_look {d : Disk} {p : Path} {e : Entry} (h : d.look p = .ok (some e)) :
    d.exists? p = true := by
  rw [exists?, find?, h]
  rfl

theorem put_extends {d : Disk} {l : Location} {e : Entry} (free : d.noted? l ≠ some .directory)
    (file : e ≠ .directory) : (d.put l e).Extends d := by
  intro m dir
  by_cases same : m = l
  · subst same
    rw [noted?_put_self d (ne_nil_of_free free)] at dir
    exact absurd (Option.some.inj dir) file
  · rwa [noted?_put_ne d same] at dir

theorem find?_put_ne {d : Disk} {p : Path} {l : Location} {e : Entry}
    (free : d.noted? l ≠ some .directory) (file : e ≠ .directory) (other : p.location ≠ l) :
    (d.put l e).find? p = d.find? p := by
  unfold find? look
  cases there : d.resolve p with
  | ok m =>
    obtain rfl := eq_location_of_resolve there
    rw [(extends_put free).resolve there]
    exact noted?_put_ne d other e
  | error fault =>
    cases there' : (d.put l e).resolve p with
    | ok m =>
      rw [(put_extends free file).resolve there'] at there
      contradiction
    | error fault => rfl

theorem find?_eq_none {d : Disk} {p : Path} (h : d.noted? p.location = none) :
    d.find? p = none := by
  rw [find?, look]
  cases there : d.resolve p with
  | error fault => rfl
  | ok l =>
    obtain rfl := eq_location_of_resolve there
    exact h

/-- Moving a file is writing it elsewhere after it was taken away. -/
theorem rename_eq {d : Disk} {source : Path} {content : Bytes}
    (h : d.look source = .ok (some (.file content))) (target : Path) :
    d.rename source target = (d.erase source.location).write target content := by
  rw [rename, read_of_look h, ok_bind, (noted?_of_look h).1]
  rfl

/-! Making directories -/

theorem makeFrom_keeps (d : Disk) (l : Location) (made : Bool) (steps : List String) :
    d.Extends (d.makeFrom l made steps).2 := by
  induction steps generalizing d l made with
  | nil => exact .refl d
  | cons s rest ih =>
    rw [makeFrom]
    split
    · exact .refl d
    dsimp only
    split
    · exact ih _ _ _
    · exact .refl d
    · split
      · exact .refl d
      · exact (extends_put_directory d _).trans (ih _ _ _)

theorem noted?_put_directory (d : Disk) (l : Location) :
    (d.put l .directory).noted? l = some .directory := by
  by_cases root : l = []
  · subst root
    rfl
  · exact noted?_put_self d root _

/-- Only directories are made, only where nothing is, and only on the way. -/
theorem makeFrom_noted? (d : Disk) (l : Location) (made : Bool) (steps : List String)
    (place : Location) :
    (d.makeFrom l made steps).2.noted? place = d.noted? place ∨
      d.noted? place = none ∧ place ∈ l.way steps ∧
        (d.makeFrom l made steps).2.noted? place = some .directory := by
  induction steps generalizing d l made with
  | nil => exact .inl rfl
  | cons s rest ih =>
    rw [makeFrom]
    split
    · exact .inl rfl
    dsimp only
    split
    · exact (ih d (l.step s) made).imp_right fun h => ⟨h.1, List.mem_cons_of_mem _ h.2.1, h.2.2⟩
    · exact .inl rfl
    · next free =>
      split
      · exact .inl rfl
      · by_cases same : place = l.step s
        · subst same
          exact .inr ⟨free, List.mem_cons_self, makeFrom_keeps _ _ _ _ _ (noted?_put_directory d _)⟩
        · have here := ih (d.put (l.step s) .directory) (l.step s) true
          rw [noted?_put_ne d same] at here
          exact here.imp_right fun h => ⟨h.1, List.mem_cons_of_mem _ h.2.1, h.2.2⟩

theorem makeDirectories_keeps (d : Disk) (p : Path) : d.Extends (d.makeDirectories p).2 := by
  unfold makeDirectories
  split
  · exact .refl d
  · exact makeFrom_keeps d _ _ _

/-- Making directories changes nothing in a place, or makes a directory there on the way. -/
theorem makeDirectories_noted? (d : Disk) (p : Path) (place : Location) :
    (d.makeDirectories p).2.noted? place = d.noted? place ∨
      d.noted? place = none ∧ place ∈ p.way ∧
        (d.makeDirectories p).2.noted? place = some .directory := by
  unfold makeDirectories
  split
  · exact .inl rfl
  · exact makeFrom_noted? d p.origin false p.steps place

theorem makeDirectories_spares (d : Disk) {p : Path} {place : Location}
    (h : d.noted? place ≠ none ∨ place ∉ p.way) : Spares place d (d.makeDirectories p).2 := by
  refine ⟨makeDirectories_keeps d p, (d.makeDirectories_noted? p place).resolve_right
    fun made => ?_⟩
  exact h.elim (fun taken => taken made.1) fun off => off made.2.1

theorem directory_of_mem_way {d : Disk} {l m place : Location} {steps : List String}
    (h : d.walk l steps = .ok m) (last : d.noted? m = some .directory) (on : place ∈ l.way steps) :
    d.noted? place = some .directory := by
  induction steps generalizing l with
  | nil => exact absurd on List.not_mem_nil
  | cons s rest ih =>
    rw [walk] at h
    split at h
    · split at h
      · contradiction
      rcases List.mem_cons.1 on with rfl | on
      · cases rest with
        | nil => rw [Except.ok.inj h]; exact last
        | cons s' rest =>
          rw [walk] at h
          split at h
          · assumption
          · contradiction
          · contradiction
      · exact ih h on
    · contradiction
    · contradiction

/-- Nothing is made on a way that is there; what is behind it is made from its end. -/
theorem makeFrom_append {d : Disk} {l m : Location} {before : List String} (made : Bool)
    (h : d.walk l before = .ok m) (last : d.noted? m = some .directory) (after : List String) :
    d.makeFrom l made (before ++ after) = d.makeFrom m made after := by
  induction before generalizing l with
  | nil =>
    cases h
    rfl
  | cons s rest ih =>
    have there : d.noted? (l.step s) = some .directory :=
      directory_of_mem_way h last List.mem_cons_self
    rw [walk] at h
    split at h
    · rw [List.cons_append, makeFrom]
      split at h
      · contradiction
      · next short =>
        rw [if_neg short]
        dsimp only
        rw [there]
        exact ih h
    · contradiction
    · contradiction

theorem makeFrom_of_walk {d : Disk} {l m : Location} {steps : List String} (made : Bool)
    (h : d.walk l steps = .ok m) (last : d.noted? m = some .directory) :
    d.makeFrom l made steps = (.ok (), d) := by
  rw [← List.append_nil steps, makeFrom_append made h last]
  rfl

theorem makeDirectories_of_walk {d : Disk} {p : Path} (clean : pathFault? p = none)
    (there : d.walk p.origin p.steps = .ok p.location)
    (directory : d.noted? p.location = some .directory) : d.makeDirectories p = (.ok (), d) := by
  rw [makeDirectories, clean]
  exact makeFrom_of_walk false there directory

theorem pathFault?_of_makeDirectories {d d' : Disk} {p : Path}
    (h : d.makeDirectories p = (.ok (), d')) : pathFault? p = none := by
  unfold makeDirectories at h
  split at h
  · simp at h
  · assumption

/-- A directory can be made below another one where nothing else stands in its place. -/
theorem makeDirectories_join {d : Disk} {p : Path} {name : String} (h : Path.IsName name)
    (short : name.utf8ByteSize ≤ 255) (fits : pathFault? (p.join name) = none)
    (there : d.walk p.origin p.steps = .ok p.location)
    (directory : d.noted? p.location = some .directory)
    (free : d.noted? (p.join name).location = none ∨
      d.noted? (p.join name).location = some .directory) :
    ∃ d', d.makeDirectories (p.join name) = (.ok (), d') ∧
      d'.noted? (p.join name).location = some .directory ∧
      ∀ l, l ≠ (p.join name).location → d'.noted? l = d.noted? l := by
  obtain ⟨before, reached, joined⟩ := walk_before h there
  rw [makeDirectories, fits, p.origin_join h]
  dsimp only
  rw [joined, makeFrom_append false reached directory, makeFrom, if_neg (Nat.not_lt.2 short),
    Location.step_name _ h, ← p.location_join h]
  dsimp only
  rcases free with none | some
  · rw [none]
    exact ⟨_, rfl, noted?_put_directory d _, fun l other => noted?_put_ne d other _⟩
  · rw [some]
    exact ⟨d, rfl, some, fun _ _ => rfl⟩

end Precedence.Disk
