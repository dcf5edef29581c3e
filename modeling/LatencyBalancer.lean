import LatencyBalancer.Config.Document
import LatencyBalancer.Deployment.Event
import LatencyBalancer.Directory
import LatencyBalancer.Engine.Description
import LatencyBalancer.Latency.Weight
import LatencyBalancer.Latency.Window
import LatencyBalancer.Publication
import LatencyBalancer.Random.Uniform
import LatencyBalancer.Selection.Selector
import LatencyBalancer.Server
import LatencyBalancer.Tree.Assembly
import LatencyBalancer.Tree.Pick
import LatencyBalancer.Proofs.Tree.Cover
import LatencyBalancer.Proofs.Tree.Rotation
import LatencyBalancer.Proofs.Tree.Sampling
import LatencyBalancer.Proofs.Random.Draws
import LatencyBalancer.Proofs.Selection.Preference
import LatencyBalancer.Proofs.Random.Zone
import LatencyBalancer.Proofs.Tree.Proportion
import LatencyBalancer.Proofs.Selection.Retries
import LatencyBalancer.Proofs.Latency.Range
import LatencyBalancer.Proofs.Tree.Building
import LatencyBalancer.Proofs.Deployment.Chronicle
import LatencyBalancer.Proofs.Deployment.Publishing
import LatencyBalancer.Proofs.Selection.Reasons
import LatencyBalancer.Proofs.Deployment.Reporting
import LatencyBalancer.Proofs.Deployment.Trees
import LatencyBalancer.Proofs.Deployment.Timer
import LatencyBalancer.Proofs.Deployment.Schedule
import LatencyBalancer.Proofs.Deployment.Lifecycle
import LatencyBalancer.Proofs.Tree.Unfolding
import LatencyBalancer.Proofs.Tree.Outcome
import LatencyBalancer.Proofs.Config.Acceptance
import LatencyBalancer.Proofs.Tree.Truthfulness
import LatencyBalancer.Proofs.Selection.Uniformity
import LatencyBalancer.Proofs.Tree.Layout
import LatencyBalancer.Proofs.Tree.Levels
import LatencyBalancer.Proofs.Tree.Faults
import LatencyBalancer.Proofs.Latency.Exactness
import LatencyBalancer.Proofs.Latency.Order
import LatencyBalancer.Proofs.Numeric.Nearest
import LatencyBalancer.Proofs.Numeric.Quotient
import LatencyBalancer.Proofs.Tree.Threshold
import LatencyBalancer.Proofs.Selection.Standing
