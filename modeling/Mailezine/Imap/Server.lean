import Mailezine.Imap.Session
import Mailezine.Imapnum.NumSet
import Mailezine.Mailstore.KVMailbox

/-! The IMAP server of `internal/imap`: its caches and what every command is made of.

    A command is a program over the server, which all connections share, and over the connection's own
    session and output, which no other connection touches. Cache keys are the tuples that the source
    joins into one string. SELECT, STORE, FETCH, full-text search and spam learning are not
    modelled. -/

namespace Mailezine.Imap
open Gostd Schemes Store Mailstore

/-- The key of a memoised listing: account, mailbox, UIDVALIDITY and modseq. -/
structure ListingKey where
  account : Str
  mailbox : Str
  uidvalidity : Nat
  modSeq : Nat
  deriving DecidableEq

/-- The listings in `Server.cache`. -/
structure Memo where
  listing : ListingKey → Option (List Message) := fun _ => none

/-- `Server`: the store behind it and its caches. -/
structure Server where
  node : Node := {}
  memo : Memo := {}

/-- A connection at work: the server, its own session, and what it has written. -/
structure Conn where
  srv : Server
  ses : Session
  out : List Response := []

/-- Replace the store. -/
@[simps] def Conn.withNode (n : Node) (c : Conn) : Conn := { c with srv := { c.srv with node := n } }

/-- Replace the caches. -/
@[simps] def Conn.withMemo (m : Memo) (c : Conn) : Conn := { c with srv := { c.srv with memo := m } }

/-- Replace the session. -/
@[simps] def Conn.withSes (s : Session) (c : Conn) : Conn := { c with ses := s }

/-- Write untagged responses. -/
@[simps] def Conn.emit (rs : List Response) (c : Conn) : Conn := { c with out := c.out ++ rs }

/-- File a listing. -/
@[simps] def Memo.putListing (m : Memo) (k : ListingKey) (msgs : List Message) : Memo :=
  { m with listing := Function.update m.listing k (some msgs) }

/-- A command. -/
abbrev Cmd (α : Type) := Prog Conn Err α

/-- A call of the store. -/
def call {α : Type} (p : Op α) : Cmd α := p.zoom (·.srv.node) Conn.withNode

/-- A change of the connection itself. -/
def own (f : Conn → Conn) : Cmd Unit := .write f

/-! ### Listings -/

/-- `maxCachedListingMessages`. -/
def maxCachedListingMessages : Nat := 2000

/-- `mailboxListAt`: the memoised listing of the version, or a fresh one; `ver` is the version when
    there is one to file it under. -/
def mailboxListAt (user mailbox : Str) (uidvalidity : Nat) (ver : Option Nat) : Cmd (List Message) :=
  match ver with
  | none => call (listMessages user mailbox)
  | some m => do
    let key : ListingKey := ⟨user, mailbox, uidvalidity, m⟩
    match ← Prog.read fun c => .ok (c.srv.memo.listing key) with
    | some msgs => pure msgs
    | none =>
      let msgs ← call (listMessages user mailbox)
      if msgs.length ≤ maxCachedListingMessages then do
        own fun c => c.withMemo (c.srv.memo.putListing key msgs)
        pure msgs
      else pure msgs

/-- The version read that comes before a listing, when the session uses versions at all. -/
def readVersion (s : Session) : Cmd (Option Nat) :=
  if s.modseqGated then call (mailboxModSeq s.user s.mbox) else pure none

/-- `refreshSnapshot`. -/
def refreshSnapshot (s : Session) : Cmd Unit :=
  if s.mbox = [] then pure ()
  else do
    let ver ← readVersion s
    let msgs ← mailboxListAt s.user s.mbox s.uidvalidity ver
    own fun c => c.withSes (c.ses.adopt ver msgs)

end Mailezine.Imap
