import PlasmaModel.Wayland.Theorems.Distinct
import PlasmaModel.Wayland.Theorems.ApplyOrder
import PlasmaModel.Positioner.Theorems.Move
import PlasmaModel.Stacking.Theorems.Constrained
import PlasmaModel.Stacking.Constraints
import PlasmaModel.Tiles.Theorems.Json
import PlasmaModel.Tiles.Theorems.Windows
import PlasmaModel.Scene.Theorems.DamageJournal
import PlasmaModel.Scene.Theorems.DrawnOnce
import PlasmaModel.XdgShell.Theorems.Converge
import PlasmaModel.XdgShell.Positioner
import PlasmaModel.Drm.Theorems.Optimize
import PlasmaModel.VirtualDesktops.Theorems.Current
import PlasmaModel.VirtualDesktops.Theorems.Load
import PlasmaModel.Outputs.Theorems.RoundTrip
import PlasmaModel.FocusChain.Theorems.Chained
import PlasmaModel.Gestures.Theorems.Sessions
import PlasmaModel.Folder.Theorems.Serialized
import PlasmaModel.Folder.Theorems.Restored
import PlasmaModel.TaskManager.Theorems.LauncherLists
import PlasmaModel.TaskManager.Theorems.Applications
import PlasmaModel.TaskManager.LessThan
import PlasmaModel.TaskManager.ManualSort
import PlasmaModel.Rules.Theorems.RoundTrip
import PlasmaModel.Rules.Theorems.Remember
import PlasmaModel.Scene.Theorems.ItemMutations
import PlasmaModel.Input.Theorems.StickyKeys
import PlasmaModel.JumpList.Theorems.Restore
import PlasmaModel.Xwl.Theorems.Received
import PlasmaModel.Klipper.Theorems.Protected
import PlasmaModel.Notifications.Theorems.PendingRemovals
import PlasmaModel.Notifications.Theorems.Announced
import PlasmaModel.ContainmentLayout.Theorems.Complete
import PlasmaModel.Positioner.Theorems.Fitting
import PlasmaModel.Tiles.Theorems.QuickTile
import PlasmaModel.ScreenEdges.Theorems.Recreate
import PlasmaModel.Libwayland.Theorems.EventLoop
import PlasmaModel.Libwayland.Theorems.ReadEvents
import PlasmaModel.Libwayland.Theorems.Peers
import PlasmaModel.Compositor.Theorems.AssignLayers
import PlasmaModel.Compositor.Theorems.RenderLoop
import PlasmaModel.Placement.Theorems.PlaceSmart
import PlasmaModel.Placement.Cascade
import PlasmaModel.Scene.Theorems.WindowQuads
import PlasmaModel.Outputs.Theorems.LidClosed
import PlasmaModel.Scene.Theorems.Items
import PlasmaModel.Scene.Theorems.SurfaceItem
import PlasmaModel.Scene.Theorems.OpaqueRegion
import PlasmaModel.Shell.ScreenPool
import PlasmaModel.Expo.Theorems.Layout
import PlasmaModel.Libwayland.Theorems.Progress
import PlasmaModel.Libwayland.Theorems.Timers
import PlasmaModel.Libwayland.Theorems.Signal
