import Takoserver.V2.References
import Takoserver.V2.Idempotency
import Takoserver.Wallet.Availability
import Takoserver.UsageWarnings
import Takoserver.V1.Chains
import Takoserver.V1.InStep
import Takoserver.V1.Deletions
import Takoserver.Ai.Billing
import Takoserver.Queue.Notices
import Takoserver.Queue.DeadLetters
import Takoserver.Org.Lifecycle
import Takoserver.Org.Receipts
import Takoserver.Transport.Order
import Takoserver.Workflow.Pending
import Takoserver.Actor.Winners
import Takoserver.V2.EdgeKv.Answers
import Takoserver.RuntimeInputs.Delivery
import Takoserver.V2.PrivateInputs
import Takoserver.Metering.Billing
import Takoserver.Metering.Exactness
import Takoserver.V2.CanonicalRequest
import Takoserver.V2.Pages
import Takoserver.ObjectStore.Frames
import Takoserver.ObjectStore.Pages
import Takoserver.Migrations.Application
import Takoserver.Cron.Leases
import Takoserver.Registry.Xxh64
import Takoserver.Metering.Decimals
