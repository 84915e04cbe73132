import Precedence.Analyzer.Basic
import Precedence.Toml.Parser
/-!
Settings of a project and of a user: reading them from documents, where everything has a default and
unknown keys are passed over, and writing those of a project as TOML.
-/
namespace Precedence

inductive Backend where
  | jsonl
  /-- The replica of it in tables, rebuilt when stale. -/
  | sqlite
  deriving DecidableEq, Repr

namespace Backend

def name : Backend → String
  | jsonl => "jsonl"
  | sqlite => "sqlite"

def ofName? (s : String) : Option Backend := [jsonl, sqlite].find? fun x => x.name == s

end Backend

inductive OutputFormat where
  | text
  | json
  deriving DecidableEq, Repr

namespace OutputFormat

def name : OutputFormat → String
  | text => "text"
  | json => "json"

def ofName? (s : String) : Option OutputFormat := [text, json].find? fun x => x.name == s

end OutputFormat

structure ProjectSettings where
  store : Backend := .jsonl
  analysis : AnalysisOptions := {}
  deriving DecidableEq, Repr

structure UserSettings where
  defaultFormat : OutputFormat := .text
  deriving DecidableEq, Repr

/-- Two settings that cannot work together: the default depth is above the limit. -/
structure SettingsConflict where
  defaultMaxDepth : Nat
  maxDepthLimit : Nat
  deriving DecidableEq, Repr

def SettingsConflict.message (c : SettingsConflict) : String :=
  "Invalid configuration: analysis.default_max_depth (" ++ Text.decimalText c.defaultMaxDepth ++
    ") is larger than analysis.max_depth_limit (" ++ Text.decimalText c.maxDepthLimit ++ ")"

def ProjectSettings.check (s : ProjectSettings) : Except SettingsConflict Unit :=
  if s.analysis.maxDepthLimit < s.analysis.defaultMaxDepth then
    .error ⟨s.analysis.defaultMaxDepth, s.analysis.maxDepthLimit⟩
  else .ok ()

namespace Settings

/-- What sets the kinds of documents apart when settings are read from them. -/
structure Dialect where
  /-- The value under the name of a choice that is written as a table. -/
  isUnit : Document → Bool
  /-- Whether a list in place of a table may have more items than the table has fields. -/
  surplus : Bool

/-- In TOML a choice may be written over an empty table or list. -/
def toml : Dialect where
  isUnit
    | .table [] => true
    | .list [] => true
    | _ => false
  surplus := true

def json : Dialect where
  isUnit
    | .null => true
    | _ => false
  surplus := false

def choice? {α : Type} (k : Dialect) (ofName? : String → Option α) : Document → Option α
  | .text s => ofName? s
  | .table [(s, d)] => if k.isUnit d then ofName? s else none
  | _ => none

def size? : Document → Option Nat
  | .integer n => if Word.IsUnsigned n then some n.toNat else none
  | _ => none

/-- The fields of a table by their keys, or the items of a list in the order of the keys. A date or
a time stands for a table with none of the keys. -/
def fields? (k : Dialect) (keys : List String) : Document → Option (List (String × Document))
  | .table fields => some fields
  | .moment _ => some []
  | .list items => if items.length ≤ keys.length ∨ k.surplus then some (keys.zip items) else none
  | _ => none

def field? {α : Type} (fields : List (String × Document)) (key : String)
    (read : Document → Option α) (default : α) : Option α :=
  match fields.lookup key with
  | some d => read d
  | none => some default

def orphanPolicy? (k : Dialect) (d : Document) : Option OrphanPolicy := do
  let fields ← fields? k ["rule", "exclude_origins"] d
  let rule ← field? fields "rule" (choice? k OrphanRule.ofName?) ({} : OrphanPolicy).rule
  let origins : Document → Option (List Origin)
    | .list items => items.mapM (choice? k Origin.ofName?)
    | _ => none
  let excludeOrigins ← field? fields "exclude_origins" origins ({} : OrphanPolicy).excludeOrigins
  return { rule, excludeOrigins }

def analysisOptions? (k : Dialect) (d : Document) : Option AnalysisOptions := do
  let none : AnalysisOptions := {}
  let fields ← fields? k ["default_max_depth", "max_depth_limit", "tie_break", "orphans"] d
  let defaultMaxDepth ← field? fields "default_max_depth" size? none.defaultMaxDepth
  let maxDepthLimit ← field? fields "max_depth_limit" size? none.maxDepthLimit
  let tieBreak ← field? fields "tie_break" (choice? k TieBreak.ofName?) none.tieBreak
  let orphans ← field? fields "orphans" (orphanPolicy? k) none.orphans
  return { defaultMaxDepth, maxDepthLimit, tieBreak, orphans }

def project? (k : Dialect) (d : Document) : Option ProjectSettings := do
  let fields ← fields? k ["store", "analysis"] d
  let store ← field? fields "store" (choice? k Backend.ofName?) .jsonl
  let analysis ← field? fields "analysis" (analysisOptions? k) {}
  return { store, analysis }

def user? (k : Dialect) (d : Document) : Option UserSettings := do
  let fields ← fields? k ["default_format"] d
  let defaultFormat ← field? fields "default_format" (choice? k OutputFormat.ofName?) .text
  return { defaultFormat }

def projectOfToml? (s : String) : Option ProjectSettings := (Toml.parse? s).bind (project? toml)

def userOfToml? (s : String) : Option UserSettings := (Toml.parse? s).bind (user? toml)

end Settings

def OrphanPolicy.document (p : OrphanPolicy) : Document :=
  .table [("rule", .text p.rule.name),
    ("exclude_origins", .list (p.excludeOrigins.map fun o => .text o.name))]

def AnalysisOptions.document (o : AnalysisOptions) : Document :=
  .table [("default_max_depth", .natural o.defaultMaxDepth),
    ("max_depth_limit", .natural o.maxDepthLimit), ("tie_break", .text o.tieBreak.name),
    ("orphans", o.orphans.document)]

namespace ProjectSettings

def document (s : ProjectSettings) : Document :=
  .table [("store", .text s.store.name), ("analysis", s.analysis.document)]

def nameList : List String → String
  | [] => "[]"
  | [s] => "[\"" ++ s ++ "\"]"
  | names => "[\n" ++ String.join (names.map fun s => "    \"" ++ s ++ "\",\n") ++ "]"

/-- The settings as TOML. Numbers that do not fit a signed word of 64 bits cannot be written. -/
def toml? (s : ProjectSettings) : Option String :=
  let a := s.analysis
  if Word.IsSigned a.defaultMaxDepth ∧ Word.IsSigned a.maxDepthLimit then
    some ("store = \"" ++ s.store.name ++ "\"\n\n[analysis]\ndefault_max_depth = " ++
      Text.decimalText a.defaultMaxDepth ++ "\nmax_depth_limit = " ++
      Text.decimalText a.maxDepthLimit ++ "\ntie_break = \"" ++ a.tieBreak.name ++
      "\"\n\n[analysis.orphans]\nrule = \"" ++ a.orphans.rule.name ++ "\"\nexclude_origins = " ++
      nameList (a.orphans.excludeOrigins.map Origin.name) ++ "\n")
  else none

end ProjectSettings

def UserSettings.document (s : UserSettings) : Document :=
  .table [("default_format", .text s.defaultFormat.name)]

end Precedence
