import ConcurrentRender.Path.Host
import ConcurrentRender.Render.Commit
import ConcurrentRender.Render.Event
import ConcurrentRender.Render.Group
import ConcurrentRender.Render.Pass
import ConcurrentRender.Render.Snapshot
import ConcurrentRender.Render.Update
import ConcurrentRender.Proofs.StepLaws
import ConcurrentRender.Proofs.Splits
import ConcurrentRender.Proofs.Tree.Frame
import ConcurrentRender.Proofs.Tree.Ancestors
import ConcurrentRender.Proofs.Tree.Raise
import ConcurrentRender.Proofs.Tree.Rings
import ConcurrentRender.Proofs.Staging.Settle
import ConcurrentRender.Proofs.Render.Moves
import ConcurrentRender.Proofs.Render.Waiting
import ConcurrentRender.Proofs.Render.FlushLoss
import ConcurrentRender.Proofs.Staging.LanesAbove
import ConcurrentRender.Proofs.Render.ChildLanes
import ConcurrentRender.Proofs.Render.LateLanes
import ConcurrentRender.Proofs.Tree.Below
import ConcurrentRender.Proofs.Context.Search
import ConcurrentRender.Proofs.Context.Marks
import ConcurrentRender.Proofs.Context.Sights
import ConcurrentRender.Proofs.Context.Changes
import ConcurrentRender.Proofs.Context.Shortcut
import ConcurrentRender.Proofs.Context.WayUp
import ConcurrentRender.Proofs.Render.OwnLanes
import ConcurrentRender.Proofs.Render.Handover
import ConcurrentRender.Proofs.Lane.Calls
import ConcurrentRender.Proofs.Context.Unwinding
import ConcurrentRender.Proofs.Lane.Entangled
import ConcurrentRender.Proofs.Render.Ledgers
import ConcurrentRender.Proofs.Render.Aside
import ConcurrentRender.Proofs.Render.Together
import ConcurrentRender.Proofs.Render.UnderWay
import ConcurrentRender.Proofs.Render.Outlived
import ConcurrentRender.Proofs.Render.Overlooked
import ConcurrentRender.Proofs.Render.Scheduled
import ConcurrentRender.Proofs.Render.Transitions
import ConcurrentRender.Proofs.Cache.Aborting
import ConcurrentRender.Proofs.Cache.Counting
import ConcurrentRender.Proofs.Cache.Pooled
import ConcurrentRender.Proofs.Context.Sharing
import ConcurrentRender.Proofs.Action.Phases
import ConcurrentRender.Proofs.Action.Story
import ConcurrentRender.Proofs.Action.Listeners
import ConcurrentRender.Proofs.Action.Scopes
import ConcurrentRender.Proofs.Action.Display
import ConcurrentRender.Proofs.Action.Balance
import ConcurrentRender.Proofs.Tree.Core
import ConcurrentRender.Proofs.Staging.Joining
import ConcurrentRender.Proofs.Staging.Reorder
import ConcurrentRender.Proofs.Tree.Siblings
import ConcurrentRender.Proofs.Tree.Removal
import ConcurrentRender.Proofs.Lane.Turns
import ConcurrentRender.Proofs.Lane.Coherent
import ConcurrentRender.Proofs.Lane.Starvation
import ConcurrentRender.Proofs.Lane.Selection
import ConcurrentRender.Proofs.Render.Access
import ConcurrentRender.Proofs.Render.FreshStart
import ConcurrentRender.Proofs.Render.Streak
import ConcurrentRender.Proofs.Render.ScopeExits
import ConcurrentRender.Proofs.Render.Uninterrupted
import ConcurrentRender.Proofs.Tree.Summit
import ConcurrentRender.Proofs.Tree.Asides
import ConcurrentRender.Proofs.Staging.Refusal
import ConcurrentRender.Proofs.Staging.Unmounted
import ConcurrentRender.Proofs.Render.Roles
import ConcurrentRender.Proofs.Render.Unmounted
import ConcurrentRender.Proofs.Render.FailedStart
import ConcurrentRender.Proofs.Render.Twins
import ConcurrentRender.Proofs.Path.Traversal
import ConcurrentRender.Proofs.Cache.Scheduling
import ConcurrentRender.Proofs.Task.Next
import ConcurrentRender.Proofs.Task.Order
