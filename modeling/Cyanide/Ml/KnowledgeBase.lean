import Mathlib.Data.List.Sort
import Mathlib.Data.Prod.Lex
import Cyanide.Lib.PosixPath
import Cyanide.Lib.PyText

/-!
# The knowledge base

`classify_command` takes the technique of the known command that is most like the given one, and where none is alike
enough the technique of a keyword.  Scores are numbers with a fraction, which are only compared: they are of any ordered
type that has the literals of the source.  How alike two commands are comes from outside.
-/

namespace Cyanide

open PosixPath PyText

/-- The literals of the source, in hundredths. -/
structure Literals (σ : Type) [LinearOrder σ] where
  lit : ℕ → σ
  strictMono : StrictMono lit

/-- What is known of a technique; a missing entry of the source's dictionary is empty. -/
structure TechniqueInfo where
  name : Str := []
  description : Str := []
  tactics : List Str := []
  mitigation : Str := []
  detection : Str := []
  platforms : List Str := []
  permissionsRequired : List Str := []
  defensesBypassed : List Str := []

/-- A relationship `uses`. -/
structure Relationship where
  sourceType : Str
  sourceId : Str
  targetId : Str

/-- What `_enrich_technique_details` puts beside the technique; groups and malware by id and name. -/
structure TechniqueContext where
  tactics : List Str
  mitigation : Str
  detection : Str
  platforms : List Str
  permissionsRequired : List Str
  defensesBypassed : List Str
  relatedGroups : List (Str × Str)
  relatedMalware : List (Str × Str)

structure TechniqueDetails where
  id : Str
  name : Str
  description : Str
  context : Option TechniqueContext

inductive Classification (σ : Type) where
  | unclassified (reason : Str) (confidence : Option σ)
  | classified (confidence : σ) (level : Str) (matchMethod matchedKeyword : Option Str) (details : TechniqueDetails)

def Classification.isClassified {σ : Type} : Classification σ → Bool
  | unclassified .. => false
  | classified .. => true

structure CommandMetadata where
  techniqueId : Str
  /-- The source in the metadata. -/
  source : Str

structure KnowledgeBase (σ : Type) [LinearOrder σ] extends Literals σ where
  isBuilt : Bool
  metadata : List CommandMetadata
  techniqueDb : Str → Option TechniqueInfo
  groupName : Str → Option Str
  malwareName : Str → Option Str
  uses : List Relationship
  /-- The commands of the corpus that are most like a text, with their similarities, or the text of an exception. -/
  nearest : Str → ℕ → Except Str (List (Fin metadata.length × σ))

/-- A result of `search`. -/
structure SearchResult (σ : Type) where
  similarity : σ
  techniqueId : Str
  source : Str

namespace KnowledgeBase

variable {σ : Type} [LinearOrder σ] (kb : KnowledgeBase σ)

def related (sourceType : String) (nameOf : Str → Option Str) (techniqueId : Str) : List (Str × Str) :=
  ((kb.uses.filter fun rel => rel.targetId = techniqueId && rel.sourceType = sourceType.toList).map fun rel =>
    (rel.sourceId, (nameOf rel.sourceId).getD "Unknown".toList)).take 5

/-- `_get_related_groups`. -/
def relatedGroups (techniqueId : Str) : List (Str × Str) := kb.related "group" kb.groupName techniqueId

/-- `_get_related_malware`. -/
def relatedMalware (techniqueId : Str) : List (Str × Str) := kb.related "malware" kb.malwareName techniqueId

def enrichTechniqueDetails (techniqueId : Str) (info : TechniqueInfo) : TechniqueDetails where
  id := techniqueId
  name := info.name
  description := info.description
  context := some {
    tactics := info.tactics
    mitigation := info.mitigation
    detection := info.detection
    platforms := info.platforms
    permissionsRequired := info.permissionsRequired
    defensesBypassed := info.defensesBypassed
    relatedGroups := kb.relatedGroups techniqueId
    relatedMalware := kb.relatedMalware techniqueId }

def enrichTechnique (techniqueId : Str) : Option TechniqueDetails :=
  (kb.techniqueDb techniqueId).map (kb.enrichTechniqueDetails techniqueId)

/-- The key of the sort in `search`. -/
def searchKey (r : SearchResult σ) : σ ×ₗ ℕ := toLex (r.similarity, if r.source = "manual_mapping".toList then 1 else 0)

/-- The sort is stable and its greatest keys come first. -/
def search (query : Str) (topK : ℕ) : Except Str (List (SearchResult σ)) :=
  if kb.isBuilt then do
    let top ← kb.nearest query topK
    let results := (top.filter fun x => kb.lit 10 ≤ x.2).map fun x =>
      let metadata := kb.metadata.get x.1
      (⟨x.2, metadata.techniqueId, metadata.source⟩ : SearchResult σ)
    return results.mergeSort fun a b => searchKey b ≤ searchKey a
  else .ok []

def keywords : List (Str × Str) :=
  [("wget".toList, "T1105".toList), ("curl".toList, "T1105".toList), ("nc".toList, "T1059".toList),
    ("bash".toList, "T1059".toList), ("chmod 777".toList, "T1222".toList), ("chmod +s".toList, "T1548".toList),
    ("/etc/shadow".toList, "T1552".toList), ("/etc/passwd".toList, "T1087".toList), ("base64".toList, "T1027".toList),
    ("crontab".toList, "T1053".toList)]

def fallbackClassify (U : Unicode) (command : Str) : Option (Classification σ) :=
  (keywords.find? fun kw => contains kw.1 (U.lower command)).map fun kw =>
    let info := (kb.techniqueDb kw.2).getD { name := "Unknown".toList }
    .classified (kb.lit 30) "FALLBACK".toList (some "keyword".toList) (some kw.1) (kb.enrichTechniqueDetails kw.2 info)

def classifyCommand (U : Unicode) (command : Str) : Except Str (Classification σ) := do
  match ← kb.search command 3 with
  | [] => return (kb.fallbackClassify U command).getD (.unclassified "No similar commands found".toList none)
  | best :: _ =>
    if best.similarity < kb.lit 35 then
      return (kb.fallbackClassify U command).getD (.unclassified "Low confidence".toList (some best.similarity))
    else
      let level := if kb.lit 70 ≤ best.similarity then "HIGH"
        else if kb.lit 50 ≤ best.similarity then "MEDIUM" else "LOW"
      let info := (kb.techniqueDb best.techniqueId).getD {}
      return .classified best.similarity level.toList none none (kb.enrichTechniqueDetails best.techniqueId info)

theorem exists_classifyCommand (U : Unicode) {command : Str} {results : List (SearchResult σ)}
    (h : kb.search command 3 = .ok results) : ∃ c, kb.classifyCommand U command = .ok c := by
  unfold classifyCommand
  rw [h]
  cases results with
  | nil => exact ⟨_, rfl⟩
  | cons best rest =>
    by_cases hlow : best.similarity < kb.lit 35
    · exact ⟨_, if_pos hlow⟩
    · exact ⟨_, if_neg hlow⟩

end KnowledgeBase

end Cyanide
