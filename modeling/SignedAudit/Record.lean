import SignedAudit.Canonical
import SignedAudit.Json
import SignedAudit.Metadata

namespace SignedAudit

/-! # Audit records

An entry says who did what to which resource, from where and with which result. A record is an entry with
an identifier, a time and a signature. The payload of a record, which is signed, has all members at all
times; the JSON form of a record leaves the optional ones out when they are empty. -/

/-- Who did what. -/
structure Entry where
  actorType : Bytes := []
  actorId : Bytes := []
  actorUsername : Bytes := []
  action : Bytes := []
  resource : Bytes := []
  resourceId : Bytes := []
  ipAddress : Bytes := []
  userAgent : Bytes := []
  result : Bytes := []
  reason : Bytes := []
  metadata : Metadata := .empty

/-- A signed entry. -/
structure Record extends Entry where
  id : Bytes := []
  time : Instant := .epoch
  signature : Bytes := []

namespace Record

open Bytes

/-! ## JSON -/

/-- A member with a string value. -/
def textMember (name : String) (value : Bytes) : Bytes := Json.member (ascii name) (Json.quoted value)

/-- A member that is left out when its value is empty. -/
def optionalMember (name : String) (value : Bytes) : List Bytes :=
  if value = [] then [] else [textMember name value]

/-- The object of the metadata. -/
def metadataObject (m : Metadata) : Bytes :=
  Json.object (m.entries.map fun x => Json.member x.1 (Json.quoted x.2))

/-- The member that holds the metadata. -/
def metadataMember (m : Metadata) : Bytes := Json.member (ascii "metadata") (metadataObject m)

/-- What is signed of a record besides its identifier, time and address. -/
def payload (r : Record) : Bytes :=
  Json.object [
    textMember "actor_type" r.actorType,
    textMember "actor_id" r.actorId,
    textMember "actor_username" r.actorUsername,
    textMember "action" r.action,
    textMember "resource" r.resource,
    textMember "resource_id" r.resourceId,
    textMember "user_agent" r.userAgent,
    textMember "result" r.result,
    textMember "reason" r.reason,
    metadataMember r.metadata]

/-- The JSON form of a record. -/
def toJson (r : Record) : Bytes :=
  Json.object (
    [textMember "id" r.id,
      textMember "timestamp" r.time.canonicalText,
      textMember "actor_type" r.actorType,
      textMember "actor_id" r.actorId]
    ++ optionalMember "actor_username" r.actorUsername
    ++ [textMember "action" r.action,
      textMember "resource" r.resource]
    ++ optionalMember "resource_id" r.resourceId
    ++ [textMember "ip_address" r.ipAddress]
    ++ optionalMember "user_agent" r.userAgent
    ++ [textMember "result" r.result]
    ++ optionalMember "reason" r.reason
    ++ (if r.metadata.entries = [] then [] else [metadataMember r.metadata])
    ++ [textMember "signature" r.signature])

/-- The statement that the signature of a record is about. -/
def attestation (r : Record) : Attestation := ⟨r.id, r.time, r.ipAddress, r.payload⟩

/-! ## Identifiers -/

/-- The sixteen bytes of a random identifier with the version, 4, and the variant set in their upper
bits. -/
def stampVersion (seed : FixedBytes 16) : Bytes :=
  (seed.val.modify 6 fun b => (b &&& 0x0f) ||| 0x40).modify 8 fun b => (b &&& 0x3f) ||| 0x80

/-- Sixteen bytes in groups of 4, 2, 2, 2 and 6, in hexadecimal, with dashes between them. -/
def formatId (b : Bytes) : Bytes :=
  Hex.encode (b.take 4) ++ Ascii.dash :: Hex.encode ((b.drop 4).take 2)
    ++ Ascii.dash :: Hex.encode ((b.drop 6).take 2) ++ Ascii.dash :: Hex.encode ((b.drop 8).take 2)
    ++ Ascii.dash :: Hex.encode (b.drop 10)

/-- The identifier that sixteen random bytes give. -/
def newId (seed : FixedBytes 16) : Bytes := formatId (stampVersion seed)

/-- Does a text have the form of a random identifier: 36 bytes, dashes at four places, the version, the
variant, and hexadecimal digits elsewhere? -/
def hasIdForm (text : Bytes) : Bool :=
  text.length == 36 && text.zipIdx.all fun (b, i) =>
    if i = 8 ∨ i = 13 ∨ i = 18 ∨ i = 23 then b == Ascii.dash
    else if i = 14 then [b] == ascii "4"
    else if i = 19 then (ascii "89ab").contains b
    else Hex.isDigit b

end Record

end SignedAudit
