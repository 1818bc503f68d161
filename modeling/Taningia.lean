import Taningia.Iri.Authority
import Taningia.Iri.Reprint
import Taningia.Iri.PriorState
import Taningia.Iri.Tag
import Taningia.Iri.PrintBounds
import Taningia.Buf.Basic
import Taningia.Buf.Run
import Taningia.Buf.Format
import Taningia.Buf.PrintError
import Taningia.Buf.Growth
import Taningia.LinkedList.Basic
import Taningia.LinkedList.Spec
import Taningia.LinkedList.Refine
import Taningia.LinkedList.Sort
import Taningia.LinkedList.Detached
import Taningia.Srv.Basic
import Taningia.Srv.Order
import Taningia.Xmpp.Events
import Taningia.Xmpp.Client
import Taningia.Xmpp.Session
import Taningia.Xmpp.Watch
import Taningia.Xmpp.WatchHistory
import Taningia.Xmpp.Settled
import Taningia.Atom.Iksemel
import Taningia.Atom.Objects
import Taningia.Atom.EntryParse
import Taningia.Atom.EntryDecision
import Taningia.Atom.EntryRoundTrip
import Taningia.Atom.EntryRecord
import Taningia.Atom.Feed
import Taningia.Atom.FeedDecision
import Taningia.Atom.EntryOutcome
import Taningia.Atom.FeedOutcome
import Taningia.Atom.Results
import Taningia.Atom.TextNodes
import Taningia.Atom.Files
import Taningia.Atom.Dates
import Taningia.Atom.ContentRun
import Taningia.Atom.Serialise
import Taningia.Object.Basic
import Taningia.Object.Calls
import Taningia.Object.Counts
import Taningia.Object.Lists
import Taningia.Object.EntryParser
import Taningia.Object.EntryObjects
import Taningia.Object.EntryChildren
import Taningia.Object.EntryLeaks
import Taningia.Srv.Decode
import Taningia.Srv.ReadBounds
import Taningia.Srv.Selection
import Taningia.Srv.Orders
import Taningia.Srv.Result
import Taningia.Iri.TagParts
import Taningia.Pubsub.Ids
import Taningia.Xmpp.Earned
import Taningia.Xmpp.Dispatch
import Taningia.Lib.Ring
import Taningia.Hashtable.Basic
import Taningia.Hashtable.Runs
import Taningia.Hashtable.Spec
import Taningia.Hashtable.Refine
import Taningia.Hashtable.Memory
import Taningia.Hashtable.Iterate
import Taningia.Xmpp.EventTable
import Taningia.Global.Threads
import Taningia.Object.Strings
import Taningia.Log.Refine
import Taningia.Xmpp.MainLoopRefine
import Taningia.Atom.TreeStacks
