import Platho.Moderation.Quota
import Platho.Seller.Progress
import Platho.Ath.Spending
import Platho.Vesting.Safety
import Platho.PublicGroup.Convergence
import Platho.Group.Snapshot
import Platho.Conv.Adoption
import Platho.Guard.Durable
import Platho.Intro.Agreement
import Platho.History.Runs
import Platho.Lane.Complete
import Platho.IntroScan.Delivery
import Platho.Public.Reactions
import Platho.Vault.Float
import Platho.Vault.Ledger
import Platho.Intro.Receive
import Platho.Rpc.Broadcast
import Platho.Resecure.Kept
import Platho.Sink.Solvency
import Platho.Moderation.Sanction
import Platho.Seller.Pricing
import Platho.Group.Rivals
import Platho.Group.Revert
import Platho.Conv.Import
import Platho.Public.Posts
import Platho.Dom.Reconcile
import Platho.States.Complete
import Platho.Compact.Capsule
import Platho.History.Pages
import Platho.Conv.Planned
import Platho.Swap.Quotes
import Platho.Blocks.Profiles
import Platho.Recovery.NotesReplaced
import Platho.Recovery.GroupsKept
import Platho.Moderation.ReportPages
import Platho.Capsule.Landed
import Platho.Public.ReactionTabs
import Platho.Frozen.History
import Platho.Keys.Registered
import Platho.Wallets.Sync
import Platho.Vault.Pricing
import Platho.Vault.Stake
