import Dalston.Foundation.Session
import Dalston.Gateway.ModelRegistry

/-!
# The model cache of the engines

The gateway uploads a snapshot of a model file by file and then puts a marker.
An engine that needs the model lists the prefix, downloads what it has listed
into a directory of its own, puts a marker there, removes the directory that is
in the way and moves its own to the place of the model. Engines share the cache
directory, and any of them stops at any point.

## Implementation notes

A directory that is moved onto a directory ends up inside it. The directory of
a download is seen by its call alone, so it is a value of the call until it is
moved; a download that fails is a call that ends. A directory is removed entry
by entry, in any order. The store also keeps which uploads have been finished.
-/

namespace Dalston.Engines.ModelCache

open Foundation
open Gateway.Models (Body Snapshot completeMarker modelPrefix objectKey under)

def accessMarker : String := ".last_accessed"

/-- A directory of the cache: its files by relative path, and what was moved into it. -/
structure CacheDir where
  files : Dict Body
  moved : Dict (Dict Body)
  deriving DecidableEq

def CacheDir.complete (d : CacheDir) : Bool := d.files.contains completeMarker

def CacheDir.entries (d : CacheDir) : List String := d.files.map (·.1) ++ d.moved.map (·.1)

/-- The bucket, the uploads that were finished, and the cache directory. -/
structure CacheStore where
  objects : Dict Body
  uploads : List (String × Snapshot)
  dirs : Dict CacheDir

/-- `model_id.replace("/", "--")`. -/
def safeId (modelId : String) : String :=
  String.ofList (modelId.toList.flatMap fun c => if c = '/' then ['-', '-'] else [c])

/-- `key[len(s3_prefix):]`. -/
def relativePath (modelId key : String) : String :=
  String.ofList (key.toList.drop (modelPrefix modelId).toList.length)

/-- `".." in relative or relative.startswith("/")`. -/
def traverses (relative : String) : Bool :=
  decide (['.', '.'] <:+: relative.toList) || decide (['/'] <+: relative.toList)

namespace CacheStore

/-- The directory of a model. -/
def dir? (s : CacheStore) (modelId : String) : Option CacheDir := s.dirs.get? (safeId modelId)

/-- `is_cached_locally`. -/
def isCachedLocally (s : CacheStore) (modelId : String) : Bool :=
  (s.dir? modelId).any (·.complete)

/-- The keys under the prefix of a model. -/
def listing (s : CacheStore) (modelId : String) : List String :=
  ((s.objects.map (·.1)).filter (under modelId)).insertionSort (· ≤ ·)

/-- `files_to_download`, by their relative paths. -/
def filesToDownload (s : CacheStore) (modelId : String) : List String :=
  ((s.listing modelId).map (relativePath modelId)).filter fun relative =>
    relative ≠ "" && relative ≠ completeMarker && !traverses relative

def setDir (s : CacheStore) (modelId : String) (d : CacheDir) : CacheStore :=
  { s with dirs := s.dirs.set (safeId modelId) d }

end CacheStore

inductive CacheEffect
  | uploadFile (modelId relative : String) (body : Body)
  /-- The marker of an upload; with it the upload of the snapshot is finished. -/
  | putMarker (modelId : String) (snapshot : Snapshot)
  | checkCached (modelId : String)
  | listObjects (modelId : String)
  | downloadFile (modelId relative : String)
  | checkTarget (modelId : String)
  | scanTarget (modelId : String)
  | unlink (modelId entry : String)
  | removeDir (modelId : String)
  | moveTemp (modelId tempName : String) (files : Dict Body)
  | touchAccessMarker (modelId : String) (time : Body)

namespace CacheEffect

def modelId : CacheEffect → String
  | uploadFile m .. | putMarker m _ | checkCached m | listObjects m | downloadFile m _
  | checkTarget m | scanTarget m | unlink m _ | removeDir m | moveTemp m ..
  | touchAccessMarker m _ => m

def apply (e : CacheEffect) (s : CacheStore) : CacheStore :=
  match e with
  | uploadFile m relative body => { s with objects := s.objects.set (objectKey m relative) body }
  | putMarker m snapshot =>
      { s with
          objects := s.objects.set (objectKey m completeMarker) []
          uploads := (m, snapshot) :: s.uploads }
  | checkCached _ | listObjects _ | downloadFile .. | checkTarget _ | scanTarget _ => s
  | unlink m entry =>
      match s.dir? m with
      | none => s
      | some d => s.setDir m ⟨d.files.erase entry, d.moved.erase entry⟩
  | removeDir m =>
      match s.dir? m with
      | some ⟨[], []⟩ => { s with dirs := s.dirs.erase (safeId m) }
      | _ => s
  | moveTemp m tempName files =>
      match s.dir? m with
      | none => s.setDir m ⟨files, []⟩
      | some d => s.setDir m { d with moved := d.moved.set tempName files }
  | touchAccessMarker m time =>
      match s.dir? m with
      | none => s
      | some d => s.setDir m { d with files := d.files.set accessMarker time }

end CacheEffect

instance : Interprets CacheEffect CacheStore := ⟨CacheEffect.apply⟩

abbrev CacheAction (A : Type) := Program CacheEffect CacheStore A

inductive CacheReply
  | uploaded
  /-- The path of a directory of the cache. -/
  | path (name : String)
  | notInS3
  | raised

/-- A call for a model. -/
inductive CacheCall
  | upload (modelId : String) (snapshot : Snapshot)
  /-- The order in which a removal meets the entries, the name of the directory of the download,
  and the text of the time of access are not up to the caller. -/
  | ensureLocal (modelId : String) (order : List String → List String) (tempName : String)
      (time : Body)

section Upload

def uploadFiles (modelId : String) : Dict Body → CacheAction Unit
  | [] => return ()
  | (relative, body) :: files => do
      let _ ← Program.perform (.uploadFile modelId relative body)
      uploadFiles modelId files

/-- `_upload_model_to_s3`. -/
def uploadModelToS3 (modelId : String) (snapshot : Snapshot) : CacheAction CacheReply := do
  uploadFiles modelId snapshot.files
  let _ ← Program.perform (.putMarker modelId snapshot)
  return .uploaded

end Upload

section Download

variable (modelId : String)

/-- Download the files one by one; an object that is gone ends the download. -/
def downloadFiles : List String → Dict Body → CacheAction (Option (Dict Body))
  | [], temp => return some temp
  | relative :: rest, temp => do
      let s ← Program.perform (.downloadFile modelId relative)
      match s.objects.get? (objectKey modelId relative) with
      | none => return none
      | some body => downloadFiles rest (temp.set relative body)

/-- Whether all entries were there to be removed. -/
def unlinkAll : List String → CacheAction Bool
  | [] => return true
  | entry :: rest => do
      let s ← Program.perform (.unlink modelId entry)
      if (s.dir? modelId).any fun d => entry ∈ d.entries then unlinkAll rest else return false

/-- `shutil.rmtree(local_path)`. -/
def removeTree (order : List String → List String) : CacheAction Bool := do
  match (← Program.perform (.scanTarget modelId)).dir? modelId with
  | none => return false
  | some d =>
      if ← unlinkAll modelId (order d.entries) then
        return ((← Program.perform (.removeDir modelId)).dir? modelId).any (·.entries.isEmpty)
      else return false

/-- Remove what is in the way. -/
def clearTarget (order : List String → List String) : CacheAction Bool := do
  if ((← Program.perform (.checkTarget modelId)).dir? modelId).isSome then removeTree modelId order
  else return true

def touchAndReturn (time : Body) : CacheAction CacheReply := do
  let _ ← Program.perform (.touchAccessMarker modelId time)
  return .path (safeId modelId)

/-- Move the download to the place of the model. -/
def placeDownload (order : List String → List String) (tempName : String) (time : Body)
    (temp : Dict Body) : CacheAction CacheReply := do
  if ← clearTarget modelId order then do
    let _ ← Program.perform (.moveTemp modelId tempName (temp.set completeMarker []))
    touchAndReturn modelId time
  else return .raised

/-- `_download_from_s3`. -/
def downloadFromS3 (order : List String → List String) (tempName : String) (time : Body) :
    CacheAction CacheReply := do
  match (← Program.perform (.listObjects modelId)).filesToDownload modelId with
  | [] => return .notInS3
  | files => do
      match ← downloadFiles modelId files [] with
      | none => return .raised
      | some temp => placeDownload modelId order tempName time temp

def ensureLocal (order : List String → List String) (tempName : String) (time : Body) :
    CacheAction CacheReply := do
  if (← Program.perform (.checkCached modelId)).isCachedLocally modelId then
    touchAndReturn modelId time
  else downloadFromS3 modelId order tempName time

end Download

def CacheCall.code : CacheCall → CacheAction CacheReply
  | upload modelId snapshot => uploadModelToS3 modelId snapshot
  | ensureLocal modelId order tempName time => ModelCache.ensureLocal modelId order tempName time

end Dalston.Engines.ModelCache
