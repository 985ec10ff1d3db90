import Mailezine.Schemes.Resumption
import Mailezine.Schemes.Numbered
import Mailezine.Schemes.Rows
import Mailezine.Schemes.ByteKeys
import Mailezine.Schemes.Hoare
import Mailezine.Schemes.Script
import Mailezine.Schemes.Threads
import Mailezine.Schemes.Attempt
import Mailezine.Gostd.Strings
import Mailezine.Gostd.Lines
import Mailezine.Gostd.TextLines
import Mailezine.Maildir.Path
import Mailezine.Pop3.Session
import Mailezine.Pop3.Confinement
import Mailezine.Pop3.Transparency
import Mailezine.Mailstore.Message
import Mailezine.Store.State
import Mailezine.Store.Txn
import Mailezine.Store.Key
import Mailezine.Store.Buffer
import Mailezine.Store.Bytes
import Mailezine.Store.ChangeLog
import Mailezine.Store.Links
import Mailezine.Store.Wellformed
import Mailezine.Store.Sweep
import Mailezine.Store.GcSafety
import Mailezine.Mailstore.KV
import Mailezine.Mailstore.KVMailbox
import Mailezine.Mailstore.Steps
import Mailezine.Mailstore.Regime
import Mailezine.Mailstore.Discipline
import Mailezine.Mailstore.Sequential
import Mailezine.Mailstore.Qresync
import Mailezine.Mailstore.Version
import Mailezine.Mailstore.Writers
import Mailezine.Mailstore.Interleaved
import Mailezine.Mailstore.Batch
import Mailezine.Mailstore.Ledger
import Mailezine.Mailstore.Accounting
import Mailezine.Mailstore.GcComplete
import Mailezine.Mailstore.Inventory
import Mailezine.Mailstore.Phantom
import Mailezine.Mailstore.Crash
import Mailezine.Mailstore.Cached
import Mailezine.Mailstore.Registry
import Mailezine.Mailstore.Views
import Mailezine.Mailstore.Complete
import Mailezine.Mailstore.Coherence
import Mailezine.Mailstore.Surface
import Mailezine.Mailstore.Purge
import Mailezine.Imapnum.NumSet
import Mailezine.Imap.Session
import Mailezine.Imap.Poll
import Mailezine.Imap.Server
import Mailezine.Imap.Commands
import Mailezine.Imap.Sequential
import Mailezine.Imap.Containment
import Mailezine.Imap.Learn
import Mailezine.Imap.Acl
import Mailezine.Kvlease.Lease
import Mailezine.Queue.Message
import Mailezine.Queue.System
import Mailezine.Queue.Effect
import Mailezine.Queue.Claims
import Mailezine.Queue.DueIndex
import Mailezine.Queue.Fencing
import Mailezine.Queue.Attempts
import Mailezine.Queue.Spool
import Mailezine.Queue.Buffered
import Mailezine.Queue.Bounces
import Mailezine.Schemes.Scatter
import Mailezine.Mailsmtp.Client
import Mailezine.Mailsmtp.Transcript
import Mailezine.Queue.Deliver
import Mailezine.Queue.TlsPolicy
import Mailezine.Queue.Outcomes
import Mailezine.Queue.Resolution
import Mailezine.Queue.Relay
import Mailezine.Sieve.Interp
import Mailezine.Sieve.Result
import Mailezine.Schemes.Faulty
import Mailezine.Mailstore.Scripts
import Mailezine.Mailstore.ActiveScript
import Mailezine.Delivery.Header
import Mailezine.Delivery.Pipeline
import Mailezine.Delivery.SpamLevel
import Mailezine.Delivery.Visits
import Mailezine.Delivery.Routing
import Mailezine.App.Submit
import Mailezine.App.Atomicity
import Mailezine.Directory.Mailez
import Mailezine.Smtp.Session
import Mailezine.Smtp.Authority
import Mailezine.Smtp.Relay
import Mailezine.Spf.Eval
import Mailezine.Spf.Control
import Mailezine.Spf.Hosts
import Mailezine.Spf.Budget
import Mailezine.Verify.Dmarc
import Mailezine.Mailstore.Flags
import Mailezine.Mailstore.Spans
import Mailezine.Store.Batch
import Mailezine.Store.FsBlob
import Mailezine.Auth.Cached
import Mailezine.Delivery.Quota
import Mailezine.Delivery.CopyFlags
import Mailezine.Delivery.Vacation
