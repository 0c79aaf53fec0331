import Mathlib

/-! The protobuf messages of `polycentric.v2` that identity resolution, event
validation, query merging and event ingestion read. Integer fields keep their
wire width. A message field is an `Option`, since proto3 lets a sender omit it. -/
namespace Polycentric

abbrev Bytes := List UInt8

namespace Proto

/-- Key type, an open enumeration: unknown values survive decoding. -/
structure PublicKey where
  keyType : Int32
  key : Bytes
  deriving DecidableEq, Repr

/-- `KeyType::Ed25519 as i32`. -/
def keyTypeEd25519 : Int32 := 1

structure EventKey where
  collection : Int32
  identity : String
  signedBy : Option PublicKey
  sequence : UInt64
  deriving DecidableEq, Repr

structure VectorClock where
  sequence : List UInt64
  deriving DecidableEq, Repr

structure ContentDigest where
  type : Int32
  value : Bytes
  deriving DecidableEq, Repr

/-- `ContentDigestType::Sha256 as i32`. -/
def contentDigestTypeSha256 : Int32 := 1

structure Event where
  key : Option EventKey
  identitySequence : UInt64
  vectorClock : Option VectorClock
  previousSignature : Bytes
  contentDigest : Option ContentDigest
  createdAt : UInt64
  previousRoot : Bytes
  deriving DecidableEq, Repr

structure SignedEvent where
  signature : Bytes
  eventBytes : Bytes
  deriving DecidableEq, Repr

structure SerializedContent where
  contentBytes : Bytes
  deriving DecidableEq, Repr

structure EventProof where
  targetSignature : Bytes
  leafIndex : UInt64
  auditPath : List Bytes
  deriving DecidableEq, Repr

structure ReactionTally where
  emoji : String
  positive : Bool
  count : Int32
  deriving DecidableEq, Repr

structure EventMetadata where
  replyCount : Option Int32
  reactionCount : Option Int32
  upvoteCount : Option Int32
  downvoteCount : Option Int32
  emojiReactions : List ReactionTally
  deriving DecidableEq, Repr

/-- `metadata` is the field `meta`, a reserved word here. -/
structure EventBundle where
  signedEvent : Option SignedEvent
  serializedContent : Option SerializedContent
  eventProofs : List EventProof
  metadata : Option EventMetadata
  deriving DecidableEq, Repr

structure EventHint where
  eventBundle : Option EventBundle
  deriving DecidableEq, Repr

structure ServerList where
  urls : List String
  deriving DecidableEq, Repr

/-- Per-collection target for verifying an `EventProof`. -/
structure EventProofTarget where
  collection : Int32
  signature : Bytes
  root : Bytes
  leafCount : UInt64
  deriving DecidableEq, Repr

structure RevocationBound where
  revokedKey : Option PublicKey
  targets : List EventProofTarget
  deriving DecidableEq, Repr

/-- The identity document. -/
structure Identity where
  rotationKeys : List PublicKey
  signingKeys : List PublicKey
  revocationBounds : List RevocationBound
  servers : Option ServerList
  recoveryKey : Option PublicKey
  recoverySignature : Option Bytes
  deriving DecidableEq, Repr

structure Blob where
  digest : Option ContentDigest
  mimeType : String
  size : Int64
  deriving DecidableEq, Repr

structure Image where
  blob : Option Blob
  deriving DecidableEq, Repr

structure ImageSet where
  images : List Image
  deriving DecidableEq, Repr

structure PostReply where
  root : Option EventKey
  parent : Option EventKey
  deriving DecidableEq, Repr

/-- The `link` arm is the only one of `AttributedTo.to`. -/
structure AttributedTo where
  linkUrl : Option String
  deriving DecidableEq, Repr

structure Post where
  text : String
  reply : Option PostReply
  images : List ImageSet
  quote : Option EventKey
  attributedTo : List AttributedTo
  deriving DecidableEq, Repr

structure Reaction where
  eventKey : Option EventKey
  emoji : Option String
  positive : Bool
  deriving DecidableEq, Repr

structure AttributedToReaction where
  attributedTo : Option AttributedTo
  emoji : Option String
  positive : Bool
  deriving DecidableEq, Repr

/-- `aliasName` is the field `alias`. -/
structure ProfileUpdate where
  name : Option String
  avatar : Option ImageSet
  banner : Option ImageSet
  description : Option String
  aliasName : Option String
  deriving DecidableEq, Repr

structure SerializedVerificationSchema where
  schemaBytes : Bytes
  digest : Option ContentDigest
  deriving DecidableEq, Repr

/-- `Content.content_body`. -/
inductive ContentBody where
  | post (post : Post)
  | delete (eventKey : Option EventKey)
  | follow (identity : String)
  | block (identity : String)
  | reaction (reaction : Reaction)
  | attributedToReaction (reaction : AttributedToReaction)
  | profileUpdate (update : ProfileUpdate)
  | identity (document : Identity)
  | repost (post : Option EventKey)
  | report (eventKey : Option EventKey)
  | labels (eventKey : Option EventKey) (labelValues : List String)
  | verificationClaim (schema : Option SerializedVerificationSchema)
  | verificationVerify (claimEventKey : Option EventKey)
  | verificationTarget (claimEventKey : Option EventKey) (targetIdentities : List String)
  deriving DecidableEq, Repr

structure Content where
  contentBody : Option ContentBody
  deriving DecidableEq, Repr

/-- All blobs referenced by this content. -/
def Content.blobs (content : Content) : List Blob :=
  let imageSets := match content.contentBody with
    | some (.post post) => post.images
    | some (.profileUpdate update) => update.avatar.toList ++ update.banner.toList
    | _ => []
  imageSets.flatMap fun set => set.images.filterMap Image.blob

end Proto

namespace Collections

/-! Reserved collection ids, `models/collections.rs`. -/

def identity : Int32 := 1
def feed : Int32 := 2
def profile : Int32 := 3
def interactions : Int32 := 4
def socialGraph : Int32 := 5
def reports : Int32 := 6
def labels : Int32 := 7
def verifications : Int32 := 8

end Collections

end Polycentric
