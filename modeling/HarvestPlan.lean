import HarvestPlan.Main
import HarvestPlan.Properties
import HarvestPlan.Store.Desk
import HarvestPlan.Proofs.Balance.Weights
import HarvestPlan.Proofs.Balance.Dealing
import HarvestPlan.Proofs.Balance.Partition
import HarvestPlan.Proofs.Balance.Spread
import HarvestPlan.Proofs.Balance.Built
import HarvestPlan.Proofs.Balance.Rounds
import HarvestPlan.Proofs.Balance.Ranked
import HarvestPlan.Proofs.Balance.Shape
import HarvestPlan.Proofs.Harvest.Local
import HarvestPlan.Proofs.Planning.Published
import HarvestPlan.Proofs.Planning.AllOrNothing
import HarvestPlan.Proofs.Planning.Reproducible
import HarvestPlan.Proofs.Planning.Renumbered
import HarvestPlan.Proofs.Store.Register
import HarvestPlan.Proofs.Split.Filled
import HarvestPlan.Proofs.Split.Accounted
import HarvestPlan.Proofs.Store.RoundTrip
import HarvestPlan.Proofs.Store.Records
import HarvestPlan.Proofs.Number.Within
import HarvestPlan.Proofs.Store.Unbroken
import HarvestPlan.Proofs.Store.Siblings
import HarvestPlan.Proofs.Store.Damaged
import HarvestPlan.Proofs.Entry.Codec
import HarvestPlan.Proofs.Storage.KeyPath
import HarvestPlan.Proofs.Harvest.Meeting
import HarvestPlan.Proofs.Harvest.Noted
import HarvestPlan.Proofs.Harvest.OwnPrefix
import HarvestPlan.Proofs.Path.BasePaths
import HarvestPlan.Proofs.Path.Relative
import HarvestPlan.Proofs.Harvest.Mirrored
import HarvestPlan.Proofs.Storage.Faulted
import HarvestPlan.Proofs.Storage.Losses
import HarvestPlan.Proofs.Storage.Rearranged
import HarvestPlan.Proofs.Harvest.Pruned
import HarvestPlan.Proofs.Harvest.Through
import HarvestPlan.Proofs.Harvest.Shallow
import HarvestPlan.Proofs.Harvest.Isolated
import HarvestPlan.Proofs.Harvest.Alike
import HarvestPlan.Proofs.Harvest.Lost
import HarvestPlan.Proofs.Harvest.Cancelled
import HarvestPlan.Proofs.Storage.Honest
import HarvestPlan.Proofs.Storage.Pages
import HarvestPlan.Proofs.Storage.FolderRoot
import HarvestPlan.Proofs.Harvest.FolderTree
import HarvestPlan.Proofs.Harvest.Folder
import HarvestPlan.Proofs.Split.Steps
import HarvestPlan.Proofs.Text.Integers
import HarvestPlan.Proofs.Config.Paths
import HarvestPlan.Proofs.Config.Accepted
import HarvestPlan.Proofs.Config.Refused
import HarvestPlan.Proofs.Log.Masked
import HarvestPlan.Proofs.Config.Listed
import HarvestPlan.Proofs.Split.Hashed
import HarvestPlan.Proofs.Log.Fitting
