import MailRules.Main
import MailRules.Sweep.Script
import MailRules.Proofs.Search.Operands
import MailRules.Proofs.Sweep.Watch
import MailRules.Proofs.Sweep.Run
import MailRules.Proofs.Live.Deletion
import MailRules.Proofs.Document.Faults
import MailRules.Proofs.Document.Secrecy
import MailRules.Proofs.Live.Connections
import MailRules.Proofs.Sweep.Release
import MailRules.Proofs.Sweep.Gate
import MailRules.Proofs.Sweep.Course
import MailRules.Proofs.Live.Guarding
import MailRules.Proofs.Live.Containment
import MailRules.Proofs.Sweep.Mistakes
import MailRules.Proofs.Sweep.Collector
import MailRules.Proofs.Program
import MailRules.Proofs.Document.Ending
import MailRules.Proofs.Document.Strictness
import MailRules.Proofs.Search.Nesting
import MailRules.Proofs.Search.Groups
import MailRules.Proofs.Live.Groups
import MailRules.Proofs.Sweep.Actions
import MailRules.Proofs.Sweep.Regrouping
import MailRules.Proofs.Calendar.Duration
import MailRules.Proofs.Search.Age
import MailRules.Proofs.Search.Dates
import MailRules.Proofs.Sweep.Values
import MailRules.Proofs.Live.Host
import MailRules.Proofs.Document.Scalars
import MailRules.Proofs.Document.Origins
import MailRules.Proofs.Live.Steps
import MailRules.Proofs.TrustStore.Bundle
import MailRules.Proofs.TrustStore.Markers
import MailRules.Proofs.Log.Line
import MailRules.Proofs.Sweep.Nesting
