import Polycentric.Library.Result
import Polycentric.Server.Erasure

/-! Blobs on the server. The bytes are in an object store, and a blob is known by its row in
`content_blob`, a child of a content row of its own: the digest of that row is that of the
encoded blob message, which no event names. -/
namespace Polycentric.Server

open Proto Result Batches

/-- A row of `content_blob`, with the digest of the content row that it belongs to. -/
structure ContentBlobRow where
  content : ContentDigest
  digestType : Int16
  digestBytes : Bytes
  mimeType : String
  size : Int64
  deriving DecidableEq, Repr

/-- The digest of the bytes of the blob. -/
def ContentBlobRow.digest (row : ContentBlobRow) : ContentDigest :=
  ⟨row.digestType.toInt32, row.digestBytes⟩

/-- The database with `content_blob`, and the objects of the store by digest. -/
structure BlobServer where
  db : Database
  contentBlob : List ContentBlobRow
  filestore : List (ContentDigest × Bytes)
  deriving DecidableEq, Repr

namespace BlobServer

def empty : BlobServer := ⟨Database.empty, [], []⟩

/-! ### Uploads -/

section Upload

variable (P : Primitives) (encodeBlob : Blob → Bytes)

/-- `parse_upload_blob_request`: the blob, its digest and the body. The size is cast to
`usize`. -/
def parseUploadBlobRequest (blob : Option Blob) (body : Bytes) :
    Except Status (Blob × ContentDigest × Bytes) := do
  let blob ← okOr blob ⟨.invalidArgument, "upload_blob: blob is required"⟩
  let digest ← okOr blob.digest ⟨.invalidArgument, "upload_blob: blob.digest is required"⟩
  ensure (decide (blob.size.toUInt64.toNat = body.length)) ⟨.invalidArgument,
    s!"upload_blob: declared size {blob.size} does not match body length {body.length}"⟩
  (digest.verifyAgainst P body).mapError fun e => ⟨.invalidArgument, e.toText⟩
  return (blob, digest, body)

/-- The digest of the encoded blob message. -/
def metadataDigest (blob : Blob) : ContentDigest :=
  ⟨contentDigestTypeSha256, (P.sha256 (encodeBlob blob)).val⟩

/-- Whether there is a row for the bytes. -/
def hasBlob (server : BlobServer) (digest : ContentDigest) : Bool :=
  server.contentBlob.any fun row =>
    row.digestType = digest.type.toInt16 && row.digestBytes = digest.value

/-- `save_blob`. If the content is tracked already there is nothing to do, and a row for the
same bytes is kept. -/
def saveBlob (server : BlobServer) (blob : Blob) : BlobServer :=
  match blob.digest with
  | none => server
  | some digest =>
      let content := metadataDigest P encodeBlob blob
      if server.db.hasContent content then server
      else
        let row : ContentBlobRow :=
          ⟨content, digest.type.toInt16, digest.value, blob.mimeType, blob.size⟩
        { server with
          db := { server.db with content := server.db.content ++ [⟨content, encodeBlob blob⟩] }
          contentBlob :=
            if server.hasBlob digest then server.contentBlob else server.contentBlob ++ [row] }

/-- `write_blob`: an object with the digest is overwritten. -/
def writeBlob (server : BlobServer) (digest : ContentDigest) (body : Bytes) : BlobServer :=
  { server with
    filestore := (digest, body) :: server.filestore.filter fun object => object.1 ≠ digest }

/-- `upload_blob`. The row is committed before the bytes are written, and the write may
fail. -/
def uploadBlob (server : BlobServer) (blob : Option Blob) (body : Bytes) (writes : Bool) :
    Except Status Unit × BlobServer :=
  match parseUploadBlobRequest P blob body with
  | .error status => (.error status, server)
  | .ok (blob, digest, body) =>
      let saved := server.saveBlob P encodeBlob blob
      if writes then (.ok (), saved.writeBlob digest body) else (.error internalError, saved)

end Upload

/-! ### Missing blobs -/

/-- `find_digests_in_db`: those of the digests that have a row. -/
def findDigestsInDb (server : BlobServer) (digests : List ContentDigest) : List ContentDigest :=
  (server.contentBlob.filter fun row => digests.contains row.digest).map ContentBlobRow.digest

/-- `remove_present_blobs`. Blobs without a digest are ignored. -/
def removePresentBlobs (server : BlobServer) (blobs : List Blob) : List Blob :=
  let alreadyPresent := server.findDigestsInDb (blobs.filterMap Blob.digest)
  blobs.filter fun blob => blob.digest.any fun digest => !alreadyPresent.contains digest

/-! ### Deleting content -/

/-- Deletes content rows with their child rows, and then the objects of blobs that no row
is left for. Some of these deletions may fail. -/
def deleteContentRows (server : BlobServer) (doomed : ContentDigest → Bool)
    (failing : List ContentDigest) : BlobServer :=
  let kept := server.contentBlob.filter fun row => !doomed row.content
  let erased := (server.contentBlob.filter fun row => doomed row.content).map ContentBlobRow.digest
  let blobs := erased.filter fun digest => !kept.any fun row => row.digest = digest
  { db := { server.db with
      content := server.db.content.filter fun row => !doomed row.digest
      contentDelete := server.db.contentDelete.filter fun row => !doomed row.content }
    contentBlob := kept
    filestore := server.filestore.filter fun object =>
      !blobs.contains object.1 || failing.contains object.1 }

/-- Whether one of the events names the content. -/
def names (events : List EventRow) (digest : ContentDigest) : Bool :=
  events.any fun event => event.contentDigest = some digest

/-- `prune_content`: no event names the content. -/
def pruneContent (server : BlobServer) (failing : List ContentDigest) : BlobServer :=
  server.deleteContentRows (fun digest => !names server.db.event digest) failing

/-- `erase_events_batch` and the deletion of its blobs. The content of the erased events is
deleted unless another event names it. -/
def eraseBatch (server : BlobServer) (identity : String) (after limit : Nat) (locked : List Nat)
    (failing : List ContentDigest) : Option (BlobServer × Nat) :=
  (server.db.eraseEventsBatch identity after limit locked).map fun (db, last) =>
    let erased := server.db.event.filter fun event => !db.event.contains event
    let doomed (digest : ContentDigest) : Bool := names erased digest && !names db.event digest
    ({ server.deleteContentRows doomed failing with db := db }, last)

/-- What is decided in a round of the loop: the batch size, the tallies that are locked, and
the deletions that fail. -/
structure Round where
  limit : Nat
  positive : 0 < limit
  locked : List Nat
  failing : List ContentDigest

def eraseIdentity (server : BlobServer) (identity : String) (round : Nat → Round) :
    Option BlobServer :=
  (sweep (fun n after server => server.eraseBatch identity after (round n).limit (round n).locked
    (round n).failing) (server.db.event.length + 1) 0 server).map fun server =>
      { server with db := server.db.eraseDerived }

end BlobServer

end Polycentric.Server
