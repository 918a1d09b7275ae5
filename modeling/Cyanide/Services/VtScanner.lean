import Mathlib.Algebra.Order.Ring.Int
import Cyanide.Lib.PosixPath
import Cyanide.Lib.PyText

/-!
# The scanner

`VTScanner` asks the service about the hash of a file and uploads what the service does not know.  An answer that refuses
the key turns the scanner off.
-/

namespace Cyanide

open PosixPath PyText

structure ScanResult where
  sha256 : Str
  malicious : Int := 0
  suspicious : Int := 0
  label : Str := "unknown".toList
  link : Str
  status : Str := "checked".toList
  analysisId : Option Str := none
  info : Option Str := none
  error : Option Str := none

/-- The report on a file; `threat` is the classification with its label, when it is there and not empty. -/
structure VtReport where
  malicious : Int
  suspicious : Int
  threat : Option (Option Str)

/-- How a request for a file ends. -/
inductive VtAnswer where
  | report (r : VtReport)
  /-- The file is not known; what the upload ends with. -/
  | unknown (uploadStatus : ℕ) (analysisId : Option Str)
  | refused (status : ℕ)
  | exception (message : Str)

structure VtScanner where
  apiKey : Str
  enabled : Bool

namespace VtScanner

def new (apiKey : Str) : VtScanner := ⟨apiKey, apiKey ≠ [] && apiKey ≠ "YOUR_API_KEY".toList⟩

def initResult (sha256 : Str) : ScanResult where
  sha256
  link := "https://www.virustotal.com/gui/file/".toList ++ sha256

def parseReport (r : VtReport) (result : ScanResult) : ScanResult :=
  { result with
    malicious := r.malicious
    suspicious := r.suspicious
    label := match r.threat with
      | some label => label.getD "detected".toList
      | none => if 0 < r.malicious then "generic_malware".toList else "clean".toList }

def uploadFile (uploadStatus : ℕ) (analysisId : Option Str) (result : ScanResult) : ScanResult :=
  let result := { result with status := "uploaded_queued".toList }
  if uploadStatus = 200 then
    { result with analysisId, info := some "File uploaded to VirusTotal. Analysis pending.".toList }
  else { result with error := some ("Upload failed: ".toList ++ natText uploadStatus) }

/-- The message for a status, and whether the scanner goes on. -/
def handleErrorStatus (status : ℕ) : Str × Bool :=
  if status = 401 then ("Unauthorized".toList, false)
  else if status = 429 then ("Quota Exceeded".toList, true)
  else ("Other error".toList, true)

/-- What is returned and what is logged, with the hash of the content. -/
def scan (v : VtScanner) (sha256 : Str) (answer : VtAnswer) : Option ScanResult × List (Str × Str) × VtScanner :=
  if v.enabled then
    match answer with
    | .report r => (some (parseReport r (initResult sha256)), [], v)
    | .unknown uploadStatus analysisId => (some (uploadFile uploadStatus analysisId (initResult sha256)), [], v)
    | .refused status =>
      let (message, keepEnabled) := handleErrorStatus status
      (none, [("vt_error".toList, message)], { v with enabled := v.enabled && keepEnabled })
    | .exception message => (none, [("vt_exception".toList, message)], v)
  else (none, [], v)

theorem sha256_of_scan {v : VtScanner} {sha256 : Str} {answer : VtAnswer} {result : ScanResult}
    (h : (v.scan sha256 answer).1 = some result) : result.sha256 = sha256 := by
  unfold scan at h
  split at h
  · cases answer with
    | report r =>
      obtain rfl := Option.some.inj h
      rfl
    | unknown uploadStatus analysisId =>
      obtain rfl := Option.some.inj h
      unfold uploadFile
      split <;> rfl
    | refused status => cases h
    | exception message => cases h
  · cases h

end VtScanner

end Cyanide
