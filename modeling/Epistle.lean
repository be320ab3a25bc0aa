import Epistle.Smtp.Session.Accounting
import Epistle.Smtp.Session.ChunkPhase
import Epistle.Imap.Framing
import Epistle.Jmap.Dispatcher
import Epistle.Jmap.QuerySync
import Epistle.Migrate.Recovery
import Epistle.Mtasts.Store
import Epistle.Dmarc.Author
import Epistle.Evidence.Soundness
import Epistle.Util.MailboxPath
import Epistle.Imap.Arrivals
import Epistle.Imap.Codes
import Epistle.Imap.Sync
import Epistle.Imap.ListPattern
import Epistle.Smtp.RateLimitQueue
import Epistle.Dkim.Emitted
import Epistle.Jmap.Changes
import Epistle.Backup.RoundTrip
import Epistle.Queue.Passes
import Epistle.Queue.Srs
import Epistle.Sieve.Safety
import Epistle.Antispam.SameArchive
import Epistle.Evidence.QuotaRollback
import Epistle.Spf.Expansion
import Epistle.Smtp.Trace.Rewrite
import Epistle.Smtp.Trace.Hops
import Epistle.Smtp.InboundHeaders.Strip
import Epistle.Smtp.Trace.Submission
import Epistle.Queue.Window
import Epistle.Evidence.TimeRef
import Epistle.Evidence.Token
import Epistle.Evidence.Rotation
import Epistle.Webdav.Datetime
import Epistle.Antispam.Uuencode
import Epistle.Storage.Crypto
import Epistle.Evidence.Der
import Epistle.Arc.StripB
import Epistle.Antispam.Sample
import Epistle.Dns.Txt
import Epistle.Managesieve.Store
import Epistle.Evidence.Walk
